import Mathlib.Data.List.MinMax
import MoltMesh.Tendermint.Script

/-!
# Names

`daemon/names/names.go`: an agent claims a name by a signed record in the hash table.  Of all
records that a search finds only the newest one is looked at before a claim is published, and it
may be the claimant's own (`kept_iff`).
-/

namespace MoltMesh.Names

open MoltMesh.Lib

/-- The functions of `unicode` and `strings` on which `Normalize` depends. -/
structure Unicode where
  isLetter : Char → Bool
  isDigit : Char → Bool
  toLower : List Char → List Char

/-- `Normalize`. -/
def normalize (U : Unicode) (name : String) : String :=
  let words := (name.toList.splitOnP fun c => ¬U.isLetter c ∧ ¬U.isDigit c).filter (· ≠ [])
  .intercalate "-" ((words.map U.toLower).filter (· ≠ [])|>.map String.ofList)

/-- A word of `validName`. -/
def isWord : List Char → Bool
  | [] => false
  | c :: w => c.isLower && w.all fun c => c.isLower || c.isDigit

/-- `Validate`. -/
def validate (name : String) : Except String Unit :=
  if name = "" then .error "name is empty"
  else if 64 < (bytes name).length then .error "name too long (max 64 characters)"
  else if (name.toList.splitOn '-').all isWord then .ok ()
  else .error (name ++ " must be lowercase letters/digits separated by hyphens")

/-- `Claim`. -/
structure Claim where
  name : String
  did : String
  publishedAt : Int
  expiresAt : Int
  signature : String
deriving DecidableEq

/-- `canonical`. -/
def canonical (c : Claim) : List UInt8 :=
  bytes ("\x7b\"name\":" ++ jsonString c.name ++ ",\"did\":" ++ jsonString c.did ++ ",\"published_at\":" ++
    decimal c.publishedAt ++ ",\"expires_at\":" ++ decimal c.expiresAt ++ ",\"signature\":\"\"\x7d")

section Search

variable (C : Ed25519) (name : String)

/-- `verifyClaim`; there is no result when `ed25519.Verify` panics. -/
def verifyClaim (c : Claim) : Option (Except String Unit) :=
  if c.signature = "" then some (.error "missing signature")
  else match Identity.pubKeyFromDID c.did with
    | .error err => some (.error ("extract pubkey: " ++ err))
    | .ok pub => match base64Decode c.signature with
      | none => some (.error "decode signature")
      | some sig => (Identity.verifyWithPub C pub (canonical c) sig).map fun valid =>
        if valid then .ok () else .error "signature verification failed"

/-- A value that the search finds: the time at which it is looked at, and the claim it decodes to. -/
abbrev Found := Int × Option Claim

/-- What the loop of `searchBest` makes of a value. -/
def weigh : Found → Option (Option Claim)
  | (_, none) => some none
  | (now, some c) => (verifyClaim C c).map fun
    | .error _ => none
    | .ok () =>
      if c.name ≠ name ∨ c.expiresAt ≤ now ∨ now + 5 * 60 * 1000 < c.publishedAt then none else some c

/-- The newer one of two claims. -/
def newer (best : Option Claim) (c : Claim) : Option Claim :=
  match best with
  | none => some c
  | some b => if b.publishedAt < c.publishedAt then some c else some b

/-- `searchBest`; there is no result when a signature panics. -/
def searchBest (found : List Found) : Option (Option Claim) :=
  found.foldlM (fun best r => (weigh C name r).map fun c => c.elim best (newer best)) none

/-- The claims that are not skipped. -/
def admitted (found : List Found) : List Claim := found.filterMap fun r => (weigh C name r).join

/-- **The search returns the newest claim**, of several ones the first. -/
theorem searchBest_eq (found : List Found) : searchBest C name found =
    if found.all fun r => (weigh C name r).isSome then some ((admitted C name found).argmax Claim.publishedAt) else none := by
  have hstep : List.argAux (fun b c : Claim => c.publishedAt < b.publishedAt) = newer := by
    funext best c
    cases best <;> rfl
  have hfold (best : Option Claim) :
      found.foldlM (fun best r => (weigh C name r).map fun c => c.elim best (newer best)) best =
        if found.all fun r => (weigh C name r).isSome then some ((admitted C name found).foldl newer best) else none := by
    induction found generalizing best with
    | nil => rfl
    | cons r found ih =>
      rw [List.foldlM_cons, List.all_cons, admitted, List.filterMap_cons]
      rcases weigh C name r with _ | _ | c
      · rfl
      · exact ih best
      · exact ih (newer best c)
  rw [searchBest, hfold, List.argmax, hstep]

end Search

/-- `claim`, with what is given to `PutValue`: `now` is the time after the search and `put` the error of the call.  There
is no result when a signature panics. -/
def claim (U : Unicode) (C : Ed25519) (id : Identity) (name : String) (found : List Found) (now : Int)
    (put : Option String) : Option (Except String Claim × List Claim) :=
  let name := normalize U name
  match validate name with
  | .error err => some (.error err, [])
  | .ok () => (searchBest C name found).map fun existing =>
    if existing.any fun c => c.did ≠ id.did ∧ now < c.expiresAt then
      (.error ("name " ++ name ++ " is already claimed"), [])
    else
      let c : Claim := ⟨name, id.did, now, now + 24 * 60 * 60 * 1000, ""⟩
      let c := { c with signature := .ofList (base64Chars (id.sign C (canonical c))) }
      match put with
      | some err => (.error ("dht put name " ++ name ++ ": " ++ err), [c])
      | none => (.ok c, [c])

section Holders

variable {U : Unicode} {C : Ed25519} {id : Identity} {name : String} {found : List Found} {now : Int} {put : Option String}

/-- The search finds a valid claim for the name by another agent that has not expired. -/
def Held (C : Ed25519) (id : Identity) (name : String) (found : List Found) (now : Int) : Prop :=
  ∃ r ∈ found, ∃ c, r.2 = some c ∧ verifyClaim C c = some (.ok ()) ∧ c.name = name ∧ c.did ≠ id.did ∧
    r.1 < c.expiresAt ∧ now < c.expiresAt ∧ c.publishedAt ≤ r.1 + 5 * 60 * 1000

theorem Held.admitted_ne_nil (h : Held C id name found now) : admitted C name found ≠ [] := by
  obtain ⟨⟨t, _⟩, hr, c, rfl, hverify, hname, -, hlive, -, hpast⟩ := h
  refine List.ne_nil_of_mem (List.mem_filterMap.mpr ⟨(t, some c), hr, (?_ : _ = some c)⟩)
  rw [weigh, hverify]
  refine if_neg ?_
  rintro (h | h | h)
  · exact h hname
  · exact absurd hlive (not_lt.mpr h)
  · exact absurd hpast (not_le.mpr h)

/-- **When a name is kept from others**: if it is held, no signature panics and the newest claim that is found is that of
another agent and has still not expired. -/
theorem kept_iff : (Held C id (normalize U name) found now → ∃ err, claim U C id name found now put = some (.error err, [])) ↔
    (validate (normalize U name) = .ok () → Held C id (normalize U name) found now →
      (∀ r ∈ found, (weigh C (normalize U name) r).isSome) ∧
      ∀ c ∈ (admitted C (normalize U name) found).argmax Claim.publishedAt, c.did ≠ id.did ∧ now < c.expiresAt) := by
  unfold claim
  dsimp only
  rw [searchBest_eq]
  rcases validate (normalize U name) with err | _
  · exact iff_of_true (fun _ => ⟨err, rfl⟩) (by rintro ⟨⟩)
  simp only [true_imp_iff]
  refine forall_congr' fun hheld => ?_
  by_cases hworks : (found.all fun r => (weigh C (normalize U name) r).isSome) = true
  swap
  · rw [if_neg hworks]
    exact iff_of_false (by simp) fun h => hworks (List.all_eq_true.mpr h.1)
  obtain ⟨c, hc⟩ : ∃ c, (admitted C (normalize U name) found).argmax Claim.publishedAt = some c :=
    Option.ne_none_iff_exists'.mp (mt List.argmax_eq_none.mp hheld.admitted_ne_nil)
  rw [if_pos hworks, hc]
  simp only [Option.map_some, Option.any_some, decide_eq_true_eq, Option.mem_some_iff, forall_eq']
  by_cases hother : c.did ≠ id.did ∧ now < c.expiresAt
  · rw [if_pos hother]
    exact iff_of_true ⟨_, rfl⟩ ⟨List.all_eq_true.mp hworks, hother⟩
  · rw [if_neg hother]
    refine iff_of_false ?_ fun h => hother h.2
    rcases put with _ | err <;> simp

end Holders

open Tendermint.Quartet (did1 did2) in
/-- A name that another agent holds is taken by one that has published a newer claim. -/
theorem name_taken : ∃ (U : Unicode) (C : Ed25519) (id : Identity) (found : List Found) (c : Claim),
    Held C id (normalize U "bob") found 3 ∧ claim U C id "bob" found 3 none = some (.ok c, [c]) := by
  refine ⟨⟨Char.isAlpha, Char.isDigit, id⟩, ⟨fun _ _ => [], fun _ _ _ => true⟩, ⟨did1, []⟩,
    [(1, some ⟨"bob", did2, 1, 9, "AA=="⟩), (1, some ⟨"bob", did1, 2, 9, "AA=="⟩)], ⟨"bob", did1, 3, 86400003, ""⟩, ?_, ?_⟩
  · exact ⟨_, .head _, _, rfl, by decide +kernel⟩
  · decide +kernel

end MoltMesh.Names
