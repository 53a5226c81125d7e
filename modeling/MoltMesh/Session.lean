import MoltMesh.Lib.Sha256
import MoltMesh.Lib.Table
import MoltMesh.Lib.Text

/-!
# Sessions of SDK agents

`daemon/session/session.go`: the sessions a daemon holds, under the hashes of their
tokens, and the two questions the RPC server asks about them.  Challenges are not part
of either and are left out, and so is the identity a session keeps besides the DID.
-/

namespace MoltMesh

open MoltMesh.Lib

/-- `session`.  The identity of a challenge has been validated, so its DID is not empty. -/
structure Session where
  agentDID : String
  agentDID_ne : agentDID ≠ ""
  /-- In milliseconds since 1970. -/
  expires : Int

/-- `session.Manager`: the sessions by the SHA-256 hash of their token. -/
structure SessionManager where
  sessions : Table (List UInt8 × Session) Prod.fst

namespace SessionManager

variable (m : SessionManager) (now : Int)

/-- `pruneLocked`. -/
def pruneLocked : SessionManager := { m with sessions := m.sessions.deleteWhere fun s => ¬now < s.2.expires }

/-- `get`. -/
def get (token : String) : Except String Session × SessionManager :=
  if token = "" then (.error "missing agent session token", m)
  else
    let m := pruneLocked m now
    match m.sessions.lookup (Sha256.sum256 (bytes token)) with
    | none => (.error "invalid or expired agent session token", m)
    | some (_, s) =>
      if ¬now < s.expires then (.error "invalid or expired agent session token", m) else (.ok s, m)

/-- `Authenticate`. -/
def authenticate (token : String) : Except String String × SessionManager :=
  match get m now token with
  | (.error err, m) => (.error err, m)
  | (.ok s, m) => (.ok s.agentDID, m)

/-- `MultipleAgents`: whether more than one SDK identity is attached. -/
def multipleAgents : Bool × SessionManager :=
  let m := pruneLocked m now
  (decide (1 < (m.sessions.rows.map fun s => s.2.agentDID).dedup.length), m)

variable {m now}

theorem ne_of_authenticate {token did : String} {m' : SessionManager}
    (h : authenticate m now token = (.ok did, m')) : did ≠ "" := by
  unfold authenticate at h
  split at h
  · cases h
  · rename_i s _ _
    obtain rfl := Except.ok.inj (Prod.mk.inj h).1
    exact s.agentDID_ne

end SessionManager

end MoltMesh
