import IbexHarness.Lib.Machine
import IbexHarness.Lib.RowLock
import IbexHarness.Lib.Text

/-! `patch_user` and `soft_delete_user` of `services/api/app/services/users.py` at READ COMMITTED. -/

namespace IbexHarness.Users

open Lib

inductive Role where
  | owner
  | admin
  | member
  | viewer
deriving DecidableEq

inductive Status where
  | active
  | invited
  | suspended
  | deactivated
deriving DecidableEq

structure UserRow where
  name : Text
  role : Role
  status : Status
  deleted : Bool
deriving DecidableEq

def UserRow.isOwner (r : UserRow) : Bool := r.role = .owner && !r.deleted

structure UserPatch where
  name : Option Text
  role : Option Role
deriving DecidableEq

inductive ErrorCode where
  | notFound
  | insufficientPermissions
  | lastOwnerProtected
  /-- what the token revoker or the database raised -/
  | raised

structure ApiError where
  code : ErrorCode
  message : Text

def userNotFound : ApiError := ⟨.notFound, "User not found".toList⟩

def onlyOwnerPromotes : ApiError := ⟨.insufficientPermissions, "Only an owner can promote a user to owner".toList⟩

def lastOwner : ApiError := ⟨.lastOwnerProtected, "Cannot demote or remove the last remaining owner".toList⟩

def isOwnerDemotion (current : Role) (new : Option Role) : Bool :=
  match new with
  | none => false
  | some r => current = .owner && r ≠ .owner

variable {n : Nat}

inductive Request (n : Nat) where
  | patch (user : Fin n) (patch : UserPatch) (callerRole : Role)
  | softDelete (user : Fin n)
deriving DecidableEq

namespace Request

def user : Request n → Fin n
  | .patch user _ _ | .softDelete user => user

/-- What the `UPDATE` writes over the latest version, with `current` as it was read before. -/
def write (q : Request n) (current latest : UserRow) : UserRow :=
  match q with
  | .patch _ p _ => { latest with name := p.name.getD current.name, role := p.role.getD current.role }
  | .softDelete _ => { latest with status := .deactivated, deleted := true }

def countsOwners (q : Request n) (current : UserRow) : Bool :=
  match q with
  | .patch _ p _ => isOwnerDemotion current.role p.role
  | .softDelete _ => current.role = .owner

def forbidden : Request n → Bool
  | .patch _ p callerRole => p.role = some .owner && callerRole ≠ .owner
  | .softDelete _ => false

end Request

/-- Where a transaction is, `current` being the row that `get_user` returned. -/
inductive Txn (n : Nat) where
  | idle
  | getUser (q : Request n)
  | selectOwners (q : Request n) (current : UserRow)
  /-- `FOR UPDATE`: the rows still to lock, and those locked and found to be owners -/
  | lockOwners (q : Request n) (current : UserRow) (todo found : List (Fin n))
  | revokeTokens (q : Request n) (current : UserRow)
  | update (q : Request n) (current : UserRow)
  | commit (q : Request n) (row : UserRow)
  | rollback (e : ApiError)
  | done (result : Except ApiError Unit)

/-- A committed transaction and the versions of its row before and after. -/
structure Commit (n : Nat) where
  request : Request n
  before : UserRow
  after : UserRow
deriving DecidableEq

structure World (n : Nat) where
  table : RowStore (Fin n) UserRow Nat
  txns : Nat → Txn n
  commits : List (Commit n)

namespace World

def setTxn (w : World n) (t : Nat) (s : Txn n) : World n := { w with txns := Function.update w.txns t s }

def owners (w : World n) : List (Fin n) := (List.finRange n).filter fun u => (w.table.rows u).isOwner

/-- Once the owners are counted or need not be: a deletion revokes the user's tokens before the `UPDATE`. -/
def afterOwners (q : Request n) (current : UserRow) : Txn n :=
  match q with
  | .patch _ _ _ => .update q current
  | .softDelete _ => .revokeTokens q current

def getUser (w : World n) (t : Nat) (q : Request n) : World n :=
  let current := w.table.rows q.user
  if current.deleted then w.setTxn t (.rollback userNotFound)
  else if q.forbidden then w.setTxn t (.rollback onlyOwnerPromotes)
  else if q.countsOwners current then w.setTxn t (.selectOwners q current)
  else w.setTxn t (afterOwners q current)

/-- Locks the next row of `FOR UPDATE`, which counts if its latest version is still an owner's. -/
def lockOwner (w : World n) (t : Nat) (q : Request n) (current : UserRow) (u : Fin n) (todo found : List (Fin n)) :
    Option (World n) :=
  (w.table.acquire t u).map fun table =>
    { w with table := table }.setTxn t
      (.lockOwners q current todo (if (table.rows u).isOwner then u :: found else found))

/-- The `UPDATE`, which finds no row if the latest version is deleted. -/
def update (w : World n) (t : Nat) (q : Request n) (current : UserRow) : Option (World n) :=
  (w.table.acquire t q.user).map fun table =>
    { w with table := table }.setTxn t
      (if (table.rows q.user).deleted then .rollback userNotFound
      else .commit q (q.write current (table.rows q.user)))

def commit (w : World n) (t : Nat) (q : Request n) (row : UserRow) : World n :=
  { w with
    table := w.table.commit t q.user row
    commits := ⟨q, w.table.rows q.user, row⟩ :: w.commits }.setTxn t (.done (.ok ()))

def advance (w : World n) (t : Nat) : Option (World n) :=
  match w.txns t with
  | .getUser q => some (w.getUser t q)
  | .lockOwners q current (u :: todo) found => w.lockOwner t q current u todo found
  | .lockOwners q current [] found =>
    some (w.setTxn t (if found.length ≤ 1 then .rollback lastOwner else afterOwners q current))
  | .update q current => w.update t q current
  | .commit q row => some (w.commit t q row)
  | .rollback e => some ({ w with table := w.table.rollback t }.setTxn t (.done (.error e)))
  | .idle | .selectOwners _ _ | .revokeTokens _ _ | .done _ => none

end World

/-! ## The machine -/

inductive Action (n : Nat) where
  | begin (t : Nat) (q : Request n)
  /-- `FOR UPDATE` begins; `order` is the order of its scan -/
  | selectOwners (t : Nat) (order : List (Fin n))
  /-- the token revoker succeeds or raises -/
  | revokeTokens (t : Nat) (failure : Option ApiError)
  | advance (t : Nat)
  /-- the transaction fails, for one as the victim of a deadlock -/
  | abort (t : Nat) (e : ApiError)

def World.step (w : World n) : Action n → Option (World n)
  | .begin t q =>
    match w.txns t with
    | .idle => some (w.setTxn t (.getUser q))
    | _ => none
  | .selectOwners t order =>
    match w.txns t with
    | .selectOwners q current => if order.isPerm w.owners then some (w.setTxn t (.lockOwners q current order [])) else
      none
    | _ => none
  | .revokeTokens t failure =>
    match w.txns t with
    | .revokeTokens q current => some (w.setTxn t (failure.elim (.update q current) .rollback))
    | _ => none
  | .advance t => w.advance t
  | .abort t e =>
    match w.txns t with
    | .idle | .done _ => none
    | _ => some (w.setTxn t (.rollback e))

def machine (n : Nat) : Machine (World n) (Action n) where
  init w := w.table.lock = (fun _ => none) ∧ w.txns = (fun _ => .idle) ∧ w.commits = []
  step := World.step

/-! ## What is to hold -/

def World.hasOwner (w : World n) : Bool := w.owners ≠ []

def Commit.promotes (c : Commit n) : Bool := c.before.role ≠ .owner && c.after.role = .owner

def Request.asksPromotion : Request n → Bool
  | .patch _ p callerRole => p.role = some .owner && callerRole = .owner
  | .softDelete _ => false

/-- The role that was read is as good as the latest: a patch of the name finds an owner if and only if it read one,
and an owner who is demoted or deleted was read as one. -/
def Request.current (q : Request n) (current latest : UserRow) : Bool :=
  match q with
  | .patch _ ⟨_, none⟩ _ => (latest.role = .owner) = (current.role = .owner)
  | .patch _ ⟨_, some role⟩ _ => role = .owner || latest.role ≠ .owner || current.role = .owner
  | .softDelete _ => latest.role ≠ .owner || current.role = .owner

def World.upToDate (w : World n) : Action n → Bool
  | .advance t =>
    match w.txns t with
    | .update q current => q.current current (w.table.rows q.user)
    | _ => true
  | _ => true

end IbexHarness.Users
