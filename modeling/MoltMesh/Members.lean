import MoltMesh.Store

/-!
# The members of a thread

`daemon/thread/store_membership.go`: the tables of members and of membership epochs,
which the RPC server reads and writes and consensus does not.
-/

namespace MoltMesh

open MoltMesh.Lib Pb

/-- `pb.ThreadMemberRole`. -/
inductive ThreadMemberRole
  | unspecified
  | observer
  | voter
  | admin
deriving DecidableEq

/-- A row of `thread_members`. -/
structure MemberRow where
  threadId : String
  did : String
  role : ThreadMemberRole
  joinedEpoch : Nat
deriving DecidableEq

/-- The database of a daemon: the tables of consensus and those of membership. -/
structure Database extends Store where
  members : Table MemberRow fun r => (r.threadId, r.did)
  membershipEpochs : Table (String × Nat) Prod.fst

namespace Database

/-- A new database. -/
def empty : Database := { Store.empty with members := .empty, membershipEpochs := .empty }

/-- `SaveMember`, one transaction; there is no result when the member is not valid. -/
def saveMember (d : Database) (member : MemberRow) : Option Database :=
  if member.threadId = "" ∨ member.did = "" ∨ member.role = .unspecified then none
  else some { d with
    members := d.members.insertOrReplace member
    membershipEpochs := d.membershipEpochs.insertOrIgnore (member.threadId, 1) }

/-- `MembershipEpoch`. -/
def membershipEpoch (d : Database) (threadID : String) : Nat :=
  match d.membershipEpochs.lookup threadID with
  | none => 1
  | some (_, epoch) => epoch

/-- `ListMembers`. -/
def listMembers (d : Database) (threadID : String) : List MemberRow :=
  (d.members.select fun r => r.threadId = threadID).insertionSort fun r r' => r.did ≤ r'.did

/-- A DID is in `thread_members` of a thread. -/
def IsMember (d : Database) (threadID did : String) : Prop :=
  ∃ r ∈ d.members.rows, r.threadId = threadID ∧ r.did = did

instance (d : Database) (threadID did : String) : Decidable (d.IsMember threadID did) :=
  inferInstanceAs (Decidable (∃ r ∈ d.members.rows, _))

theorem mem_listMembers {d : Database} {threadID did : String} :
    did ∈ (d.listMembers threadID).map MemberRow.did ↔ d.IsMember threadID did := by
  simp only [listMembers, List.mem_map, List.mem_insertionSort, Table.mem_select, decide_eq_true_eq,
    and_assoc, IsMember]

end Database

end MoltMesh
