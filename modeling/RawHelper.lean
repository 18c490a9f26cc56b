import RawHelper.Lib.ByteField
import RawHelper.Lib.Cursor
import RawHelper.Lib.Ieee
import RawHelper.Lib.Extended
import RawHelper.Lib.Binary
import RawHelper.Lib.Accuracy
import RawHelper.Lib.Bitmap
import RawHelper.Protocol.Messages
import RawHelper.Protocol.Shm
import RawHelper.Protocol.Announced
import RawHelper.Protocol.Names
import RawHelper.Lib.Socket
import RawHelper.Lib.Machine
import RawHelper.Lib.Query
import RawHelper.Lib.Trace
import RawHelper.Lib.Directory
import RawHelper.Lib.Service
import RawHelper.Lib.Counting
import RawHelper.Protocol.Channel
import RawHelper.Protocol.Delivery
import RawHelper.Protocol.Postcard
import RawHelper.Helper.Opcodes
import RawHelper.Helper.Corrections
import RawHelper.Helper.Lens
import RawHelper.Helper.Linearization
import RawHelper.Helper.ListCost
import RawHelper.Helper.Clipping
import RawHelper.Helper.Precision
import RawHelper.Helper.Handle
import RawHelper.Helper.Session
import RawHelper.Helper.Reasons
import RawHelper.Helper.Render
import RawHelper.Helper.Develop
import RawHelper.Helper.Metadata
import RawHelper.Helper.Decode
import RawHelper.Helper.OpcodeOrder
import RawHelper.Helper.Samples
import RawHelper.Helper.Sensor
import RawHelper.Helper.Preview
import RawHelper.Helper.Alloc
import RawHelper.Helper.Transcript
import RawHelper.Helper.Process
import RawHelper.Helper.Calls
import RawHelper.Helper.Pixels
import RawHelper.Helper.Record
