import GpuNetwork.Store.Db

/-!
# Transactional programs

A request handler is a program that issues one database statement after the
other and chooses the next one from the answers so far.  `Prog` is the free
monad over the statements `Stmt`; a handler is written once, in `do` notation,
and is given meaning by the interleaving semantics of
`GpuNetwork.Store.Interleave`, which runs it one statement at a time.

* `Stmt` — the statements, with the type `Stmt.Res` of the answer to each.
* `Prog` — programs that return a value or raise an error.
* `Prog.Emits` — every statement a program can issue, whatever the answers are,
  has a given property.
-/

namespace ReadCommitted

/-- A clock reading, in microseconds. -/
abbrev Time := Int

/-- The statements of a session.  `now` and `random` read the clock and the
random source of the server and do not reach the database. -/
inductive Stmt (R K W : Type) where
  /-- `datetime.now(UTC)`. -/
  | now
  /-- A freshly drawn random number. -/
  | random
  /-- `now()` of the database: the time at which the transaction began. -/
  | txTime
  /-- A plain `SELECT` for one row. -/
  | select (w : W)
  /-- A plain `SELECT` for all rows, in the order of the clause. -/
  | selectAll (w : W)
  /-- One row of a `SELECT … FOR UPDATE SKIP LOCKED`: lock it and check the clause
  again on its newest version, or pass it over. -/
  | tryLock (w : W) (k : K)
  | insert (r : R)
  /-- `INSERT … ON CONFLICT DO NOTHING` of several rows. -/
  | insertNew (rs : List R)
  /-- `INSERT … ON CONFLICT DO UPDATE` of several rows. -/
  | upsert (rs : List R)
  /-- `UPDATE … WHERE` primary key, of the columns in which the rows differ. -/
  | update (old new : R)
  | delete (k : K)
  | commit
  | rollback
  deriving DecidableEq

/-- What the program gets back. -/
@[reducible] def Stmt.Res {R K W : Type} : Stmt R K W → Type
  | .now => Time
  | .random => Nat
  | .txTime => Time
  | .select _ => Option R
  | .selectAll _ => List R
  | .tryLock _ _ => Option R
  | .insert _ => Unit
  | .insertNew _ => Nat
  | .upsert _ => Unit
  | .update _ _ => Bool
  | .delete _ => Bool
  | .commit => Unit
  | .rollback => Unit

/-- The statement changes nothing and does not end the transaction. -/
def Stmt.reads {R K W : Type} : Stmt R K W → Bool
  | .now => true
  | .random => true
  | .txTime => true
  | .select _ => true
  | .selectAll _ => true
  | _ => false

/-- A program: a value, an error, or a statement and what to do with its answer. -/
inductive Prog (R K W ε α : Type) where
  | ret (a : α)
  | throw (e : ε)
  | stmt (q : Stmt R K W) (k : q.Res → Prog R K W ε α)

namespace Prog

variable {R K W ε α β : Type}

/-- Sequencing. -/
def bind : Prog R K W ε α → (α → Prog R K W ε β) → Prog R K W ε β
  | .ret a, f => f a
  | .throw e, _ => .throw e
  | .stmt q k, f => .stmt q (fun r => (k r).bind f)

instance : Monad (Prog R K W ε) where
  pure := .ret
  bind := bind

/-- The statement as a program. -/
def exec (q : Stmt R K W) : Prog R K W ε q.Res := .stmt q .ret

@[simp] theorem pure_eq (a : α) : (pure a : Prog R K W ε α) = .ret a := rfl

@[simp] theorem ret_bind (a : α) (f : α → Prog R K W ε β) : (Prog.ret a >>= f) = f a := rfl

@[simp] theorem throw_bind (e : ε) (f : α → Prog R K W ε β) :
    (Prog.throw e >>= f) = .throw e := rfl

@[simp] theorem stmt_bind (q : Stmt R K W) (k : q.Res → Prog R K W ε α)
    (f : α → Prog R K W ε β) : (Prog.stmt q k >>= f) = .stmt q (fun r => k r >>= f) := rfl

theorem bind_assoc {γ : Type} (x : Prog R K W ε α) (f : α → Prog R K W ε β)
    (g : β → Prog R K W ε γ) : (x >>= f) >>= g = x >>= fun a => f a >>= g := by
  induction x with
  | ret a => rfl
  | throw e => rfl
  | stmt q k ih => exact congrArg (Prog.stmt q) (funext fun r => ih r)

@[simp] theorem exec_bind (q : Stmt R K W) (f : q.Res → Prog R K W ε β) :
    (exec q >>= f) = .stmt q f := rfl

/-- Nothing is left to do. -/
def Finished : Prog R K W ε α → Bool
  | .stmt _ _ => false
  | _ => true

/-- Every statement the program can issue satisfies `p`, whatever it is answered. -/
def Emits (p : Stmt R K W → Prop) : Prog R K W ε α → Prop
  | .stmt q k => p q ∧ ∀ r, (k r).Emits p
  | _ => True

@[simp] theorem emits_ret (p : Stmt R K W → Prop) (a : α) :
    (Prog.ret a : Prog R K W ε α).Emits p ↔ True := Iff.rfl

@[simp] theorem emits_throw (p : Stmt R K W → Prop) (e : ε) :
    (Prog.throw e : Prog R K W ε α).Emits p ↔ True := Iff.rfl

@[simp] theorem emits_stmt (p : Stmt R K W → Prop) (q : Stmt R K W)
    (k : q.Res → Prog R K W ε α) : (Prog.stmt q k).Emits p ↔ p q ∧ ∀ r, (k r).Emits p :=
  Iff.rfl

theorem emits_exec {p : Stmt R K W → Prop} {q : Stmt R K W} (h : p q) :
    (exec q : Prog R K W ε q.Res).Emits p :=
  ⟨h, fun _ => trivial⟩

theorem emits_bind {p : Stmt R K W → Prop} {x : Prog R K W ε α} {f : α → Prog R K W ε β}
    (hx : x.Emits p) (hf : ∀ a, (f a).Emits p) : (x >>= f).Emits p := by
  induction x with
  | ret a => exact hf a
  | throw e => trivial
  | stmt q k ih => exact ⟨hx.1, fun r => ih r (hx.2 r)⟩

theorem Emits.mono {p p' : Stmt R K W → Prop} (hp : ∀ q, p q → p' q) {x : Prog R K W ε α}
    (hx : x.Emits p) : x.Emits p' := by
  induction x with
  | ret a => trivial
  | throw e => trivial
  | stmt q k ih => exact ⟨hp q hx.1, fun r => ih r (hx.2 r)⟩

end Prog

end ReadCommitted
