import GpuNetwork.Commits.Queries
import GpuNetwork.Store.Rows

/-!
# What the repositories keep of the rows

The rules of `Prog.Keeps` for the statements of the repositories, for any property of rows:
a query answers with rows that have it, and a flush writes such rows.

* `keeps_of_reads`, `keeps_flush`, `keeps_createAudit`.
* `keeps_selectUser`, `keeps_currentUser`, `keeps_currentNode`, … — what is read.
-/

namespace GpuNetwork

open ReadCommitted

variable {app : App} {I : Row → Prop} {α : Type}

theorem keeps_of_reads {x : Handler α} (h : Reads x) {Q : α → Prop} (hQ : ∀ a, Q a) :
    x.Keeps I Q :=
  keeps_of_emits (Prog.Emits.mono (fun _ hq => Stmt.keeps_of_reads hq) h) hQ

theorem keeps_flush {old new : Row} (ho : I old) (hn : I new) :
    (flush old new).Keeps I fun _ => True := by
  unfold flush
  split
  · trivial
  · refine ⟨⟨ho, hn⟩, fun matched _ => ?_⟩
    cases matched <;> trivial

theorem keeps_createAudit (hI : ∀ a, I (.auditLog a)) (event : Event) (userId : Option Uuid)
    (data : EventData) (client : Client) :
    (createAudit event userId data client).Keeps I fun _ => True :=
  ⟨trivial, fun _ _ => ⟨trivial, fun _ _ => ⟨hI _, fun _ _ => trivial⟩⟩⟩

theorem keeps_commit : commit.Keeps I fun _ => True := ⟨trivial, fun _ _ => trivial⟩

/-! ## Queries -/

theorem keeps_selectUser (w : Cond) :
    (selectUser w).Keeps I fun o => ∀ u ∈ o, I (.user u) := by
  refine ⟨trivial, fun o ho => ?_⟩
  cases o with
  | none => exact fun u hu => absurd hu (by simp)
  | some r =>
    cases r with
    | user u =>
      rintro u' hu'
      cases hu'
      exact ho _ rfl
    | _ => exact fun u hu => absurd hu (by simp)

theorem keeps_selectNode (w : Cond) :
    (selectNode w).Keeps I fun o => ∀ n ∈ o, I (.node n) := by
  refine ⟨trivial, fun o ho => ?_⟩
  cases o with
  | none => exact fun n hn => absurd hn (by simp)
  | some r =>
    cases r with
    | node n =>
      rintro n' hn'
      cases hn'
      exact ho _ rfl
    | _ => exact fun n hn => absurd hn (by simp)

theorem keeps_selectJob (w : Cond) :
    (selectJob w).Keeps I fun o => ∀ j ∈ o, I (.job j) := by
  refine ⟨trivial, fun o ho => ?_⟩
  cases o with
  | none => exact fun j hj => absurd hj (by simp)
  | some r =>
    cases r with
    | job j =>
      rintro j' hj'
      cases hj'
      exact ho _ rfl
    | _ => exact fun j hj => absurd hj (by simp)

theorem keeps_lockFirst (w : Cond) (rs : List Row) :
    (lockFirst w rs).Keeps I fun o => ∀ j ∈ o, I (.job j) := by
  induction rs with
  | nil => exact fun j hj => absurd hj (by simp)
  | cons r rs ih =>
    refine ⟨trivial, fun o ho => ?_⟩
    cases o with
    | none => exact ih
    | some x =>
      cases x with
      | job j =>
        rintro j' hj'
        cases hj'
        exact ho _ rfl
      | _ => exact ih

theorem keeps_refreshJob (id : Uuid) : (refreshJob id).Keeps I fun j => I (.job j) := by
  refine ⟨trivial, fun o ho => ?_⟩
  cases o with
  | none => trivial
  | some x =>
    cases x with
    | job j => exact ho _ rfl
    | _ => trivial

/-! ## Callers -/

theorem keeps_currentUser (bearer : Option Str) :
    (currentUser app bearer).Keeps I fun u => I (.user u) := by
  cases bearer with
  | none => trivial
  | some token =>
    have hnone : ∀ u ∈ (none : Option User), I (.user u) := fun u hu => absurd hu (by simp)
    unfold currentUser
    dsimp only
    split
    · refine keeps_bind (Prog.Keeps.mono (Q := fun o => ∀ u ∈ o, I (.user u)) ?_ fun o ho => ?_)
      · refine keeps_bind (keeps_of_reads (reads_selectApiKey _) fun o => ?_)
        cases o with
        | none => exact hnone
        | some k =>
          dsimp only
          split
          · exact hnone
          · refine keeps_bind (keeps_of_reads (reads_orRaise _) fun valid => ?_)
            split
            · exact keeps_selectUser _
            · exact hnone
      · cases o with
        | none => trivial
        | some u => exact ho u rfl
    · refine keeps_exec_bind trivial fun now _ => ?_
      cases app.jwtDecode now token with
      | none => trivial
      | some subject =>
        dsimp only
        cases uuid? subject with
        | none => trivial
        | some id =>
          refine keeps_bind ((keeps_selectUser _).mono fun o ho => ?_)
          cases o with
          | none => trivial
          | some u => exact ho u rfl

theorem keeps_requireAdmin (bearer : Option Str) :
    (requireAdmin app bearer).Keeps I fun u => I (.user u) := by
  refine keeps_bind ((keeps_currentUser bearer).mono fun u hu => ?_)
  split
  · exact hu
  · trivial

theorem keeps_currentNode (bearer : Option Str) :
    (currentNode app bearer).Keeps I fun n => I (.node n) := by
  cases bearer with
  | none => trivial
  | some token =>
    have hnone : ∀ n ∈ (none : Option Node), I (.node n) := fun n hn => absurd hn (by simp)
    refine keeps_bind (Prog.Keeps.mono (Q := fun o => ∀ n ∈ o, I (.node n)) ?_ fun o ho => ?_)
    · unfold authenticateAgent
      split
      · refine keeps_bind ((keeps_selectNode _).mono fun o ho => ?_)
        cases o with
        | none => exact hnone
        | some n =>
          dsimp only
          split
          · exact hnone
          · refine keeps_bind (keeps_of_reads (reads_orRaise _) fun valid => ?_)
            split
            · exact ho
            · exact hnone
      · exact hnone
    · cases o with
      | none => trivial
      | some n => exact ho n rfl

end GpuNetwork
