import MoltMesh.Tasks.Store

/-!
# Messages

`pb.Message`, what daemons send to each other.  Payloads that are marshalled messages are kept as
what they decode to.
-/

namespace MoltMesh

open MoltMesh.Tasks

/-- `pb.MessageKind`; on the wire it may be any number. -/
inductive MessageKind
  | unspecified
  | text
  | taskRequest
  | taskEvent
  | taskResult
  | taskCancel
  | ack
  | threadInvite
  | other (n : Int)
deriving DecidableEq

/-- `pb.TaskRequest`. -/
structure TaskRequest where
  skill : String
  threadId : String
  inputArtifacts : List Artifact
  metadata : List (String × String)
deriving DecidableEq

/-- `pb.TaskResult`. -/
structure TaskResult where
  taskId : String
  status : TaskStatus
  outputArtifacts : List Artifact
  error : String
  data : List UInt8
deriving DecidableEq

/-- The payload of a message, read as its kind says. -/
inductive MessagePayload
  /-- What a `TASK_REQUEST` decodes to. -/
  | taskRequest (t : TaskRequest)
  /-- What a `TASK_RESULT` decodes to. -/
  | taskResult (r : TaskResult)
  /-- The bytes of any other message, or bytes that do not decode. -/
  | bytes (data : List UInt8)
deriving DecidableEq

/-- `pb.Message`, without its signature. -/
structure Message where
  id : String
  fromDid : String
  toDid : String
  threadId : String
  taskId : String
  kind : MessageKind
  payload : MessagePayload
  sentAt : Int
deriving DecidableEq

end MoltMesh
