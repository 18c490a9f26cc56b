import RawHelper.Protocol.Shm

/-!
# A buffer and the layout announced with it

A reply with pixels announces their layout and has a buffer attached
(`protocol/src/lib.rs`, `protocol/src/shm.rs`).  `Announced` is what both sides
expect of the two: the layout's size is the buffer's, computed without wrapping, and
the object is whole pages.

It is what `create` gives when asked for the layout's own size
(`announced_of_create`), and it is all the receiver needs: unless the system
refuses, `mapReceived` maps the whole object, and the first bytes of the mapping are
what was put into the buffer (`Announced.received`).
-/

namespace RawHelper.Shm

/-- The buffer holds just what the layout says. -/
structure Announced (l : Layout) (b : SharedBuffer) : Prop where
  bytes : l.bytes = b.len
  exact : l.bytes.toNat = l.exactBytes
  nonempty : b.len ≠ 0
  len_lt : b.len.toNat < 2 ^ 63
  size : b.fd.size = (wholePages b.len).toNat

variable {l : Layout} {b : SharedBuffer}

theorem announced_of_create {os : Creator} {len : UInt64}
    (h : SharedBuffer.create os len = .ok b) (hbytes : l.bytes = len)
    (hexact : l.exactBytes < 2 ^ 64) : Announced l b := by
  obtain ⟨rfl, h0, hlt, hsize⟩ := SharedBuffer.create_ok h
  exact ⟨hbytes, by rw [l.toNat_bytes, Nat.mod_eq_of_lt hexact], h0, hlt, hsize⟩

namespace Announced

/-- Writing into the buffer changes nothing of this. -/
theorem write (h : Announced l b) {bytes : List UInt8} (hbytes : bytes.length = b.len.toNat) :
    Announced l (b.write bytes hbytes) :=
  ⟨h.bytes, h.exact, h.nonempty, h.len_lt, (b.size_write hbytes).trans h.size⟩

theorem copyFromSlice (h : Announced l b) {bytes : List UInt8} {filled : SharedBuffer}
    (hcopy : b.copyFromSlice bytes = some filled) : Announced l filled ∧ filled.map = bytes := by
  rw [SharedBuffer.copyFromSlice] at hcopy
  split at hcopy
  · next hlen =>
    obtain rfl := Option.some.inj hcopy
    exact ⟨h.write hlen, b.map_write hlen⟩
  · cases hcopy

theorem length_map (h : Announced l b) : b.map.length = l.exactBytes := by
  rw [SharedBuffer.map, List.length_take, ← h.exact, h.bytes]
  exact min_eq_left b.len_le

/-- **What arrives**: the receiver maps the whole object, and its first bytes are
those of the buffer. -/
theorem received (h : Announced l b) {os : Os} (hstat : os.fstatFails b.fd = false)
    (hmmap : os.mmapFails b.fd (wholePages b.len) = false) :
    ∃ m, mapReceived os b.fd l.bytes = .ok m ∧ m.len.toNat = b.fd.size ∧
      m.bytes.take l.exactBytes = b.map := by
  refine ⟨⟨b.fd, wholePages b.len⟩, ?_, h.size.symm, ?_⟩
  · have hasks := asks_of_le h.nonempty b.len_le os hstat
    rw [if_pos h.size.ge, mmap, hmmap] at hasks
    rw [h.bytes, hasks]
    rfl
  · have hle := le_wholePages b.len h.len_lt
    rw [Mmap.bytes, ← h.exact, h.bytes, List.take_take, Nat.min_eq_left hle, SharedBuffer.map]

end Announced

end RawHelper.Shm
