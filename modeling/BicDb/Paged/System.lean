import BicDb.Foundation.Run
import BicDb.Paged.Chains

/-!
# Transactions on a paged store

A step is one call of any running transaction, a snapshot, a freeze or spill, or a vacuum step. The
system also keeps the successful writes, newest first, and every snapshot with what had committed by
then.
-/

namespace BicDb.Paged

open BicDb.Foundation

/-- A successful put, or a delete that found something. -/
structure Write where
  author : Nat
  key : Bytes
  effect : Option Bytes
  deriving DecidableEq

/-- A snapshot, with what had committed then. -/
structure Taken where
  snapshot : Snapshot
  committed : List Nat
  deriving DecidableEq

/-- The store, with records of what was written and seen. -/
structure System where
  store : PagedStore
  writes : List Write
  taken : List Taken

/-- The actions on a store. -/
inductive Action where
  | beginTransaction
  | latestSnapshot
  | put (place : TupleLocator) (transaction : Nat) (key value : Bytes)
  | delete (transaction : Nat) (key : Bytes)
  | commit (transaction : Nat)
  | abort (transaction : Nat)
  | freeze (maxXids : Nat)
  | spill
  | vacuum (cursor : Option Nat) (limits : VacuumLimits) (expired : Nat → Bool)

/-- What has committed by now. -/
def TransactionTable.committedNow (t : TransactionTable) : List Nat :=
  (List.range t.nextXid).filter fun x => decide (x ≠ 0) && decide (t.status x = .committed)

/-- Records a put that succeeded. -/
def recordPut (result : Except PageError TupleLocator) (w : Write) (writes : List Write) :
    List Write :=
  match result with
  | .ok _ => w :: writes
  | .error _ => writes

/-- Records a delete that found a row. -/
def recordDelete (result : Except PageError Bool) (w : Write) (writes : List Write) : List Write :=
  match result with
  | .ok true => w :: writes
  | _ => writes

namespace System

def new (o : Options) : System := ⟨.new o, [], []⟩

/-- One call; a transaction acts only while it runs. -/
def step (o : Options) (sys : System) : Action → Option System
  | .beginTransaction =>
    let started := sys.store.beginTransaction
    some { sys with
      store := started.2
      taken := ⟨started.1.2, sys.store.transactions.committedNow⟩ :: sys.taken }
  | .latestSnapshot =>
    some { sys with
      taken := ⟨sys.store.latestSnapshot, sys.store.transactions.committedNow⟩ :: sys.taken }
  | .put place transaction key value =>
    if transaction ∈ sys.store.transactions.inProgress ∧
        sys.store.heap.canPlace place = true then
      let result := sys.store.put o place transaction key value
      some { sys with
        store := result.2
        writes := recordPut result.1 ⟨transaction, key, some value⟩ sys.writes }
    else none
  | .delete transaction key =>
    if transaction ∈ sys.store.transactions.inProgress then
      let result := sys.store.delete o transaction key
      some { sys with
        store := result.2
        writes := recordDelete result.1 ⟨transaction, key, none⟩ sys.writes }
    else none
  | .commit transaction =>
    if transaction ∈ sys.store.transactions.inProgress then
      some { sys with store := sys.store.commit transaction }
    else none
  | .abort transaction =>
    if transaction ∈ sys.store.transactions.inProgress then
      some { sys with store := sys.store.abort transaction }
    else none
  | .freeze maxXids =>
    let t := sys.store.transactions
    some { sys with store := { sys.store with
      transactions := t.freezeBelowBounded t.oldestInProgressOrNext maxXids } }
  | .spill =>
    some { sys with store := { sys.store with
      transactions := sys.store.transactions.persistStatusSpill } }
  | .vacuum cursor limits expired =>
    some { sys with store := (sys.store.vacuumStep o cursor limits expired).2 }

end System

/-- The last own write of the key, or else the last one committed before the snapshot. -/
def referenceValue (writes : List Write) (e : Taken) (key : Bytes) : Option Bytes :=
  match writes.find? fun w => decide (w.key = key) && decide (w.author = e.snapshot.xid) with
  | some w => w.effect
  | none =>
    (writes.find? fun w => decide (w.key = key) && decide (w.author ∈ e.committed)).bind (·.effect)

/-- The value can be read back, and the chain stays below the walk limit. -/
def PutFits (o : Options) (sys : System) : Action → Prop
  | .put _ transaction key value =>
    o.readable ⟨⟨transaction, 0, none⟩, value⟩ = true ∧
      (follow Version.prev sys.store.heap.tuples maxVersionChain
        (sys.store.index key)).length + 1 < maxVersionChain
  | _ => True

instance (o : Options) (sys : System) (act : Action) : Decidable (PutFits o sys act) := by
  cases act <;> dsimp only [PutFits] <;> infer_instance

end BicDb.Paged
