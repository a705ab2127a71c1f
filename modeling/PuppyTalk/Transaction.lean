import PuppyTalk.RowLock
import PuppyTalk.Run

namespace PuppyTalk.Txn

/-- A database with lockable rows: the unique constraints, and what a lock of a given mode on a row
protects, as the databases that agree on it. -/
class Rows (D : Type) (R : outParam Type) where
  Valid : D → Prop
  Agree : LockMode → R → D → D → Prop
  refl (m : LockMode) (r : R) (d : D) : Agree m r d d
  trans {m : LockMode} {r : R} {d d' d'' : D} : Agree m r d d' → Agree m r d' d'' → Agree m r d d''

/-- A locking statement under READ COMMITTED. Its snapshot selects rows; each of them is locked once
it is free, if its newest version still meets the condition, and only locked rows are written. -/
structure Stmt (D R : Type) [Rows D R] where
  rows : D → List R
  keeps : D → R → Bool
  mode : R → LockMode
  /-- The snapshot, the rows locked, and the database that the write reaches. -/
  write : D → List R → D → D
  valid (snap : D) (locked : List R) (d : D) : Rows.Valid d → Rows.Valid (write snap locked d)
  frame (snap : D) (locked : List R) (d : D) (m : LockMode) (r : R) :
    (∀ r' ∈ locked, r' = r → m.conflicts (mode r') = false) → Rows.Agree m r d (write snap locked d)

/-- A request: the statements it sends, the commands to what lies outside the database, and its
commits. `D` is the database with rows `R`, `X` what lies outside, `ε` the exceptions, `ρ` the names
of the statements and `ν` what a commit leaves on record. -/
inductive Prog (D R X ε ρ ν : Type) [Rows D R] (α : Type) where
  | pure (a : α)
  /-- An exception leaves the block, and the transaction is rolled back. -/
  | raise (e : ε)
  /-- A query. Where the database is free in its answer, the request names one, and `ok` says
  whether it is an answer that the database can give. -/
  | select (name : ρ) (ok : D → Bool) (k : D → Prog D R X ε ρ ν α)
  | call (f : X → X) (k : X → Prog D R X ε ρ ν α)
  /-- The program goes on with the snapshot, the database after the statement and the rows that the
  statement locked. -/
  | exec (name : ρ) (st : Stmt D R) (k : D → D → List R → Prog D R X ε ρ ν α)
  | commit (note : ν) (k : Prog D R X ε ρ ν α)

namespace Prog

variable {D R X ε ρ ν : Type} [Rows D R]

def bind (f : α → Prog D R X ε ρ ν β) : Prog D R X ε ρ ν α → Prog D R X ε ρ ν β
  | pure a => f a
  | raise e => raise e
  | select name ok k => select name ok fun d => (k d).bind f
  | call g k => call g fun x => (k x).bind f
  | exec name st k => exec name st fun snap d locked => (k snap d locked).bind f
  | commit note k => commit note (k.bind f)

instance : Monad (Prog D R X ε ρ ν) where
  pure := .pure
  bind x f := x.bind f

/-- `try ... except`. -/
def tryExcept (handler : ε → Option ε) : Prog D R X ε ρ ν α → Prog D R X ε ρ ν α
  | pure a => pure a
  | raise e => raise ((handler e).getD e)
  | select name ok k => select name ok fun d => (k d).tryExcept handler
  | call g k => call g fun x => (k x).tryExcept handler
  | exec name st k => exec name st fun snap d locked => (k snap d locked).tryExcept handler
  | commit note k => commit note (k.tryExcept handler)

def next : Prog D R X ε ρ ν α → Option ρ
  | select name _ _ => some name
  | exec name _ _ => some name
  | _ => none

@[simp] theorem select_bind (name : ρ) (ok : D → Bool) (k : D → Prog D R X ε ρ ν α)
    (f : α → Prog D R X ε ρ ν β) :
    select name ok k >>= f = select name ok fun d => k d >>= f := rfl

@[simp] theorem call_bind (g : X → X) (k : X → Prog D R X ε ρ ν α) (f : α → Prog D R X ε ρ ν β) :
    call g k >>= f = call g fun x => k x >>= f := rfl

@[simp] theorem exec_bind (name : ρ) (st : Stmt D R) (k : D → D → List R → Prog D R X ε ρ ν α)
    (f : α → Prog D R X ε ρ ν β) :
    exec name st k >>= f = exec name st fun snap d locked => k snap d locked >>= f := rfl

@[simp] theorem commit_bind (note : ν) (k : Prog D R X ε ρ ν α) (f : α → Prog D R X ε ρ ν β) :
    commit note k >>= f = commit note (k >>= f) := rfl

end Prog

/-- One commit: the request, what it recorded, the statements it had begun, each with the number of
commits before it, and the database it left. -/
structure Commit (D Q ρ ν : Type) where
  req : Q
  note : ν
  past : List (ρ × Nat)
  db : D

/-- What all requests share: the committed database, what lies outside, and the commits so far. -/
structure World (D X Q ρ ν : Type) where
  db : D
  ext : X
  log : List (Commit D Q ρ ν)

namespace World

variable {D X Q ρ ν : Type}

def commit (w : World D X Q ρ ν) (req : Q) (note : ν) (past : List (ρ × Nat)) (db : D) :
    World D X Q ρ ν where
  db := db
  ext := w.ext
  log := w.log ++ [{ req := req, note := note, past := past, db := db }]

def call (w : World D X Q ρ ν) (f : X → X) : World D X Q ρ ν := { w with ext := f w.ext }

end World

structure Tx (D R X ε ρ ν Q : Type) [Rows D R] where
  req : Q
  prog : Prog D R X ε ρ ν (Option Q)
  scan : Option (D × Scan R)
  /-- What the transaction has written and not yet committed. -/
  redo : D → D
  past : List (ρ × Nat)

inductive Outcome (ε : Type) where
  | returned
  | raised (e : ε)
  | aborted
  deriving DecidableEq, Repr

structure Ended (ε ρ Q : Type) where
  req : Q
  past : List (ρ × Nat)
  outcome : Outcome ε
  len : Nat

structure State (D R X ε ρ ν Q : Type) [Rows D R] where
  world : World D X Q ρ ν
  locks : LockTable Nat R
  txs : Nat → Option (Tx D R X ε ρ ν Q)
  ended : List (Ended ε ρ Q)

inductive Label (R Q : Type) where
  | begin (i : Nat) (q : Q)
  /-- The next query, command or commit of a request, or the begin or the end of a statement. -/
  | run (i : Nat)
  | lock (i : Nat) (r : R)
  | abort (i : Nat)
  deriving DecidableEq, Repr

namespace State

variable {D R X ε ρ ν Q : Type} [Rows D R]

def init (db : D) (ext : X) : State D R X ε ρ ν Q where
  world := { db := db, ext := ext, log := [] }
  locks := []
  txs := fun _ => none
  ended := []

def setTx (s : State D R X ε ρ ν Q) (i : Nat) (tx : Option (Tx D R X ε ρ ν Q)) :
    State D R X ε ρ ν Q :=
  { s with txs := Function.update s.txs i tx }

def close (s : State D R X ε ρ ν Q) (i : Nat) (tx : Tx D R X ε ρ ν Q) (o : Outcome ε) :
    State D R X ε ρ ν Q :=
  { s with
    locks := s.locks.release i
    txs := Function.update s.txs i none
    ended := { req := tx.req, past := tx.past, outcome := o, len := s.world.log.length } :: s.ended }

@[simp] theorem setTx_self (s : State D R X ε ρ ν Q) (i : Nat) (tx : Option (Tx D R X ε ρ ν Q)) :
    (s.setTx i tx).txs i = tx := Function.update_self ..

theorem setTx_of_ne (s : State D R X ε ρ ν Q) (tx : Option (Tx D R X ε ρ ν Q)) (h : j ≠ i) :
    (s.setTx i tx).txs j = s.txs j := Function.update_of_ne h ..

@[simp] theorem close_self (s : State D R X ε ρ ν Q) (i : Nat) (tx : Tx D R X ε ρ ν Q)
    (o : Outcome ε) : (s.close i tx o).txs i = none := Function.update_self ..

theorem close_of_ne (s : State D R X ε ρ ν Q) (tx : Tx D R X ε ρ ν Q) (o : Outcome ε) (h : j ≠ i) :
    (s.close i tx o).txs j = s.txs j := Function.update_of_ne h ..

end State

section Step

variable {D R X ε ρ ν Q : Type} [Rows D R] [DecidableEq R]
variable (program : Q → Prog D R X ε ρ ν (Option Q))

def Tx.start (q : Q) : Tx D R X ε ρ ν Q where
  req := q
  prog := program q
  scan := none
  redo := id
  past := []

def State.run (s : State D R X ε ρ ν Q) (i : Nat) (tx : Tx D R X ε ρ ν Q) :
    Option (State D R X ε ρ ν Q) :=
  let view := tx.redo s.world.db
  let now := s.world.log.length
  match tx.prog with
  | .pure none => some (s.close i tx .returned)
  | .pure (some q) => some ((s.close i tx .returned).setTx i (some (Tx.start program q)))
  | .raise e => some (s.close i tx (.raised e))
  | .select name ok k =>
    if ok view then some (s.setTx i (some { tx with prog := k view, past := (name, now) :: tx.past }))
    else none
  | .call f k =>
    some ({ s with world := s.world.call f }.setTx i (some { tx with prog := k s.world.ext }))
  | .exec name st k =>
    match tx.scan with
    | none => some (s.setTx i (some { tx with
        scan := some (view, { locked := [], waiting := st.rows view })
        past := (name, now) :: tx.past }))
    | some (snap, sc) =>
      if sc.waiting = [] then
        some (s.setTx i (some { tx with
          prog := k snap (st.write snap sc.locked view) sc.locked
          scan := none
          redo := st.write snap sc.locked ∘ tx.redo }))
      else none
  | .commit note k =>
    some ({ s with
      world := s.world.commit tx.req note tx.past view
      locks := s.locks.release i }.setTx i (some { tx with prog := k, redo := id }))

def State.lock (s : State D R X ε ρ ν Q) (i : Nat) (tx : Tx D R X ε ρ ν Q) (r : R) :
    Option (State D R X ε ρ ν Q) :=
  match tx.prog, tx.scan with
  | .exec _ st _, some (snap, sc) =>
    (s.locks.resume i st.mode (st.keeps (tx.redo s.world.db)) sc r).map fun (sc, locks) =>
      { s with locks := locks }.setTx i (some { tx with scan := some (snap, sc) })
  | _, _ => none

def step (s : State D R X ε ρ ν Q) : Label R Q → Option (State D R X ε ρ ν Q)
  | .begin i q => if (s.txs i).isSome then none else some (s.setTx i (some (Tx.start program q)))
  | .run i => (s.txs i).bind fun tx => s.run program i tx
  | .lock i r => (s.txs i).bind fun tx => s.lock i tx r
  | .abort i => (s.txs i).map fun tx => s.close i tx .aborted

def Label.slot : Label R Q → Nat
  | .begin i _ => i
  | .run i => i
  | .lock i _ => i
  | .abort i => i

variable {program} {s s' : State D R X ε ρ ν Q}

omit [DecidableEq R] in
theorem State.run_txs_of_ne {tx : Tx D R X ε ρ ν Q} (h : s.run program i tx = some s') (hne : j ≠ i) :
    s'.txs j = s.txs j := by
  unfold State.run at h
  dsimp only at h
  split at h
  · cases h
    exact State.close_of_ne _ _ _ hne
  · cases h
    rw [State.setTx_of_ne _ _ hne, State.close_of_ne _ _ _ hne]
  · cases h
    exact State.close_of_ne _ _ _ hne
  · split at h
    · cases h
      exact State.setTx_of_ne _ _ hne
    · cases h
  · cases h
    exact State.setTx_of_ne _ _ hne
  · split at h
    · cases h
      exact State.setTx_of_ne _ _ hne
    · split at h
      · cases h
        exact State.setTx_of_ne _ _ hne
      · cases h
  · cases h
    exact State.setTx_of_ne _ _ hne

theorem step_txs_of_ne {a : Label R Q} (h : step program s a = some s') (hne : j ≠ a.slot) :
    s'.txs j = s.txs j := by
  cases a with
  | begin i q =>
    simp only [step] at h
    split at h
    · cases h
    · cases h
      exact State.setTx_of_ne _ _ hne
  | run i =>
    obtain ⟨tx, _, h⟩ := Option.bind_eq_some_iff.mp h
    exact State.run_txs_of_ne h hne
  | lock i r =>
    obtain ⟨tx, _, h⟩ := Option.bind_eq_some_iff.mp h
    unfold State.lock at h
    split at h
    · obtain ⟨_, _, rfl⟩ := Option.map_eq_some_iff.mp h
      exact State.setTx_of_ne _ _ hne
    · cases h
  | abort i =>
    obtain ⟨tx, _, rfl⟩ := Option.map_eq_some_iff.mp h
    exact State.close_of_ne _ _ _ hne

end Step

end PuppyTalk.Txn
