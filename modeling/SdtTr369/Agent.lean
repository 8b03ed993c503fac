import SdtTr369.PathCodec
import SdtTr369.EffectProgram

/-!
# The state of the data-model thread

The state holds the instance vectors of the top-level tables, the rows of the
USP database and the current transaction. What comes from outside (SQLite
failures, vendor hooks, the clock, subscriptions) is a `World` that answers the
calls in the order in which they are made, so that every pattern of failures is
some world.
-/

namespace Agent

open UspTypes Schema PathCodec EffectProgram

/-- `dm_op_t`. -/
inductive DmOp where
  | set
  | add
  | del
  deriving DecidableEq, Repr

/-- `dm_trans_t`: an operation logged in a transaction. -/
structure DmTrans where
  op : DmOp
  path : Str
  value : Option Str
  node : NodeId
  inst : List Int
  deriving DecidableEq, Repr

/-- The key of a row of `data_model`. -/
abbrev Key := UInt32 × Str

/-- The table `data_model`, with the rows that a rollback returns to while a
SQLite transaction is open. -/
structure Database where
  rows : List (Key × Str)
  saved : Option (List (Key × Str))
  deriving DecidableEq, Repr

/-- The answers to the calls that leave the data model. -/
structure World where
  startFails : Nat → Bool
  setFails : Nat → Bool
  deleteFails : Nat → Bool
  commitFails : Nat → Bool
  hook : Nat → Option Err
  convertValue : Nat → Option Err
  getValue : Nat → Except Err Str
  groupAdd : Nat → Except Err Int
  time : Nat → Int
  refreshInstances : Nat → Option (List Str × Int)
  subscribedTables : Nat → List NodeId
  readFails : Nat → Bool
  groupGet : Nat → Except Err (Str → Option Str)

/-- Nothing fails and no hook does anything. -/
def quietWorld : World :=
  ⟨fun _ => false, fun _ => false, fun _ => false, fun _ => false, fun _ => none, fun _ => none,
    fun _ => .ok [], fun _ => .ok 1, fun _ => 0, fun _ => none, fun _ => [], fun _ => false,
    fun _ => .ok fun _ => some []⟩

structure State where
  instVector : NodeId → List DmInstances
  lockPeriod : NodeId → Nat
  refreshExpiryTime : NodeId → Int
  curLockPeriod : Nat
  db : Database
  curTransaction : Option (List DmTrans)
  calls : Nat

def initialState : State := ⟨fun _ => [], fun _ => 0, fun _ => 0, 1, ⟨[], none⟩, none, 0⟩

abbrev Op := Prog State Err

/-- One call to the outside. -/
def call {β : Type} (f : Nat → β) : Op β := fun a =>
  some (.ok (f a.calls), { a with calls := a.calls + 1 })

@[simp] theorem wp_call {β : Type} {T : Prop} (f : Nat → β) (a : State)
    (Q : β → State → Prop) (E : Err → State → Prop) :
    Wp T (call f) a Q E ↔ Q (f a.calls) { a with calls := a.calls + 1 } := Iff.rfl

/-- A vendor hook: it fails with its own code, and one that is not registered
does not fail. -/
def vendorHook (W : World) : Op Unit := do
  match ← call W.hook with
  | none => pure ()
  | some e => .fail e

/-! ## The database -/

def Database.set (db : Database) (key : Key) (value : Str) : Database :=
  { db with rows := db.rows.filter (fun row => row.1 ≠ key) ++ [(key, value)] }

def Database.delete (db : Database) (key : Key) : Database :=
  { db with rows := db.rows.filter fun row => row.1 ≠ key }

def Database.get (db : Database) (key : Key) : Option Str := db.rows.lookup key

def Database.rollback (db : Database) : Database :=
  match db.saved with
  | none => db
  | some rows => ⟨rows, none⟩

/-- `PASSWORD_OBFUSCATION_KEY`. -/
def passwordObfuscationKey : Str := "$%^&*()@~#/,?".toList

def obfuscatedCopy (value : Str) : Str :=
  value.zipIdx.map fun (c, i) =>
    Char.ofNat (c.toNat ^^^
      (passwordObfuscationKey.getD (i % passwordObfuscationKey.length) (Char.ofNat 0)).toNat)

/-- SQLite does not begin a transaction inside another one. -/
def databaseStartTransaction (W : World) : Op Unit := do
  let fails ← call W.startFails
  let isOpen ← .read fun a => a.db.saved.isSome
  if fails || isOpen then .fail .internalError
  else .update fun a => { a with db := { a.db with saved := some a.db.rows } }

/-- A failed commit leaves the SQLite transaction open. -/
def databaseCommitTransaction (W : World) : Op Unit := do
  let fails ← call W.commitFails
  let isOpen ← .read fun a => a.db.saved.isSome
  if fails || !isOpen then .fail .internalError
  else .update fun a => { a with db := { a.db with saved := none } }

/-- Errors of the rollback are ignored. -/
def databaseAbortTransaction : Op Unit := .update fun a => { a with db := a.db.rollback }

/-- `DATABASE_SetParameterValue`; the flag is `OBFUSCATED_VALUE`. -/
def databaseSetParameterValue (W : World) (key : Key) (newValue : Str) (obfuscated : Bool) :
    Op Unit := do
  let fails ← call W.setFails
  let value := if obfuscated then obfuscatedCopy newValue else newValue
  if fails then .fail .internalError
  else .update fun a => { a with db := a.db.set key value }

def databaseDeleteParameter (W : World) (key : Key) : Op Unit := do
  let fails ← call W.deleteFails
  if fails then .fail .internalError
  else .update fun a => { a with db := a.db.delete key }

end Agent
