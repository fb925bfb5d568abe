import SnowflakeClient.CInt
import SnowflakeClient.Conc.Machine
import SnowflakeClient.Conc.CondVar
import SnowflakeClient.Stmt.Basic
import SnowflakeClient.Chunks.Model
import SnowflakeClient.Chunks.Moves
import SnowflakeClient.Chunks.Queue
import SnowflakeClient.Chunks.Wakeup
import SnowflakeClient.Chunks.Cursor
import SnowflakeClient.Chunks.Lock
import SnowflakeClient.Chunks.Reexec
import SnowflakeClient.Transfer.Basic
import SnowflakeClient.Transfer.Digest
import SnowflakeClient.Transfer.Appender
import SnowflakeClient.Transfer.PartFailure
import SnowflakeClient.Transfer.Ranges
import SnowflakeClient.Transfer.Reassembly
import SnowflakeClient.Util.PoolClient
import SnowflakeClient.Util.PoolCompletion
import SnowflakeClient.Transfer.Upload
import SnowflakeClient.Util.PoolJobs
import SnowflakeClient.Transfer.UploadParts
import SnowflakeClient.Streambuf
import SnowflakeClient.Crypto.CipherStream
import SnowflakeClient.Crypto.RoundTrip
import SnowflakeClient.Util.Platform
import SnowflakeClient.Transfer.PutGet
import SnowflakeClient.Transfer.Agent
import SnowflakeClient.Transfer.Responses
import SnowflakeClient.Transfer.Rows
import SnowflakeClient.Prog
import SnowflakeClient.Connection.Json
import SnowflakeClient.Connection.Session
import SnowflakeClient.Connection.Calls
import SnowflakeClient.Connection.FinalAnswer
import SnowflakeClient.Connection.Renewal
import SnowflakeClient.Connection.Connect
import SnowflakeClient.Connection.FailedLogin
import SnowflakeClient.Stmt.Api
import SnowflakeClient.Stmt.Described
import SnowflakeClient.Stmt.ApiClient
import SnowflakeClient.CString
import SnowflakeClient.RedBlack
import SnowflakeClient.Util.Base64Decode
import SnowflakeClient.Bind.RbTree
import SnowflakeClient.Bind.RbTreeShape
import SnowflakeClient.Bind.RbTreeInsert
import SnowflakeClient.Bind.RbTreeMap
import SnowflakeClient.Bind.TreeMap
import SnowflakeClient.Bind.Params
import SnowflakeClient.Bind.Sent
import SnowflakeClient.Bind.Positional
import SnowflakeClient.Bind.Named
import SnowflakeClient.Types
import SnowflakeClient.Decimal
import SnowflakeClient.Calendar
import SnowflakeClient.Timestamp.Basic
import SnowflakeClient.Timestamp.Wire
import SnowflakeClient.Timestamp.Epoch
import SnowflakeClient.Timestamp.Offset
import SnowflakeClient.Timestamp.RoundTrip
import SnowflakeClient.Timestamp.Print
import SnowflakeClient.Util.Base64Url
import SnowflakeClient.Run
import SnowflakeClient.Crypto.Evp
import SnowflakeClient.Crypto.Ecb
import SnowflakeClient.Crypto.FileKey
import SnowflakeClient.Crypto.KeyMaterial
import SnowflakeClient.Jwt.Token
import SnowflakeClient.Jwt.RoundTrip
import SnowflakeClient.CText
import SnowflakeClient.Connection.EncodeUrl
import SnowflakeClient.Block
import SnowflakeClient.Connection.Response
import SnowflakeClient.Stmt.Description
import SnowflakeClient.Stmt.ColumnStr
import SnowflakeClient.Regex
import SnowflakeClient.Util.PutGetCommand
import SnowflakeClient.Stmt.AffectedRows
import SnowflakeClient.CNumeral
import SnowflakeClient.Stmt.ColumnUint
import SnowflakeClient.StdString
import SnowflakeClient.Util.Proxy
import SnowflakeClient.Connection.RequestGuid
import SnowflakeClient.Stmt.ColumnStrStatus
import SnowflakeClient.Timestamp.Parts
import SnowflakeClient.Transfer.Compression
import SnowflakeClient.Connection.HostAccount
import SnowflakeClient.Util.PoolBatch
import SnowflakeClient.Transfer.Parallel
import SnowflakeClient.Transfer.LargeFiles
import SnowflakeClient.Transfer.SmallFiles
import SnowflakeClient.Transfer.FinalRows
import SnowflakeClient.Bind.ArrayList
import SnowflakeClient.Bind.Rendered
import SnowflakeClient.Util.PutGetScanner
import SnowflakeClient.Jwt.ClaimMap
import SnowflakeClient.Crypto.ResultBuffer
import SnowflakeClient.Linked
import SnowflakeClient.Util.Memory
import SnowflakeClient.Util.AllocMap
import SnowflakeClient.Binary64
import SnowflakeClient.CDouble
import SnowflakeClient.BlockString
import SnowflakeClient.CJson.Parse
import SnowflakeClient.CJson.ParseSafe
import SnowflakeClient.CJson.Text
import SnowflakeClient.CJson.Print
import SnowflakeClient.CJson.Render
import SnowflakeClient.CJson.RoundTrip
