import GpuNetwork.Commits.Effects

/-!
# The rows a request writes

Which rows each request can write, whatever it finds in the store.

* `Request.may` — the writes of a request.
* `may_of_shape` — no transaction of it has others.
-/

namespace GpuNetwork

open ReadCommitted

/-- The request may commit the write. -/
def Request.may : Request → Write Row Key → Prop
  | .signup _ _, .insert (.user _) => True
  | .generateKey _ _, .insert (.apiKey _) => True
  | .revokeKey _ _, .update (.apiKey _) (.apiKey _) => True
  | .approveUser _ id _, .update (.user u) (.user _) => u.id = id
  | .suspendUser _ id, .update (.user u) (.user _) => u.id = id
  | .createClaimToken _, .insert (.claimToken _) => True
  | .registerNode _ _, .insert (.node _) => True
  | .registerNode _ _, .update (.claimToken _) (.claimToken _) => True
  | .heartbeat _ id, .update (.node n) (.node _) => n.id = id
  | .pushMetrics _ id _, .update (.node n) (.node _) => n.id = id
  | .pushMetrics _ id _, w => ∃ g, w.target = .nodeMetric id g
  | .drainNode _ id, .update (.node n) (.node _) => n.id = id
  | .forceDrainNode _ id, .update (.node n) (.node _) => n.id = id
  | .undrainNode _ id, .update (.node n) (.node _) => n.id = id
  | .deleteNode _ id, .delete (.node n) => n = id
  | .deleteNode _ _, .delete (.nodeMetric _ _) => True
  | .deleteNode _ _, .update (.job _) (.job _) => True
  | .submitJob _ _, .insert (.job _) => True
  | .claimJob _, .update (.job _) (.job _) => True
  | .completeJob _ id _, .update (.job j) (.job _) => j.id = id
  | .completeJob _ _ _, .update (.user _) (.user _) => True
  | .cancelJob _ id, .update (.job j) (.job _) => j.id = id
  | .forceKillJob _ id, .update (.job j) (.job _) => j.id = id
  | .pushLogs _ id _, .insert (.jobLog l) => l.jobId = id
  | .pushLogs _ _ _, _ => False
  | _, .insert (.auditLog _) => True
  | _, _ => False

variable {app : App} {req : Request} {tx : Transaction}

/-- The `ON DELETE` actions of a node. -/
theorem may_of_deletion {caller : Caller} {view : Database} {id : Uuid} {w : Write Row Key}
    (hw : w ∈ (referring view (.node id)).map (unrefWrite (.node id)) ++ [.delete (.node id)]) :
    (Request.deleteNode caller id).may w := by
  rcases List.mem_append.1 hw with hm | hm
  · obtain ⟨r, hr, rfl⟩ := List.mem_map.1 hm
    have hmem := of_decide_eq_true (List.mem_filter.1 hr).2
    cases r with
    | job j => trivial
    | nodeMetric m => trivial
    | auditLog a =>
      simp only [Schema.refs, Row.refs, List.map_map, List.mem_map, Function.comp] at hmem
      obtain ⟨x, -, hx⟩ := hmem
      cases hx
    | _ => simp [Schema.refs, Row.refs] at hmem
  · rw [List.mem_singleton.1 hm]
    rfl

/-- The bill of a job goes to an account. -/
theorem update_of_mem_billWrites {hours : Int} {owner : Option User} {w : Write Row Key}
    (h : w ∈ billWrites hours owner) : ∃ u v, w = .update (.user u) (.user v) := by
  cases owner with
  | none => simp [billWrites] at h
  | some u => exact ⟨u, u.billed hours, mem_flushed h⟩

/-- **The footprint of a request.** -/
theorem may_of_shape (h : Shape app req tx) : ∀ w ∈ tx.writes, req.may w := by
  intro w hm
  cases h with
  | aside ha =>
    cases ha with
    | login hw _ _ => rw [hw, List.mem_singleton] at hm; subst hm; trivial
    | listAuditEvents hw _ _ => rw [hw, List.mem_singleton] at hm; subst hm; trivial
    | generateKey hw _ _ =>
      rw [hw, List.mem_cons, List.mem_singleton] at hm
      rcases hm with rfl | rfl <;> trivial
    | revokeKey hw _ _ =>
      rw [hw, List.mem_cons, List.mem_singleton] at hm
      rcases hm with rfl | rfl <;> trivial
    | createClaimToken hw _ _ _ =>
      rw [hw, List.mem_cons, List.mem_singleton] at hm
      rcases hm with rfl | rfl <;> trivial
    | pushLogs _ _ _ hw hlogs _ =>
      rw [hw] at hm
      obtain ⟨l, hl, rfl⟩ := List.mem_map.1 hm
      exact (hlogs l hl).1
  | signup hw _ _ _ =>
    rw [hw, List.mem_cons, List.mem_singleton] at hm
    rcases hm with rfl | rfl <;> trivial
  | sets hs hid _ _ hw _ _ =>
    rw [hw, List.mem_append, List.mem_singleton] at hm
    rcases hm with hm | rfl
    · rw [mem_flushed hm]
      cases hs <;> exact hid
    · cases hs <;> trivial
  | registerNode _ _ _ _ _ _ _ _ hw _ =>
    rw [hw, List.mem_cons, List.mem_cons, List.mem_singleton] at hm
    rcases hm with rfl | rfl | rfl <;> trivial
  | heartbeat _ hid hw =>
    rw [hw] at hm
    rw [mem_flushed hm]
    exact hid
  | pushMetrics _ hid hups hw =>
    rw [hw, List.mem_append] at hm
    rcases hm with hm | hm
    · obtain ⟨g, hg⟩ := hups w hm
      rw [hid] at hg
      cases w with
      | insert r => cases r <;> exact ⟨g, hg⟩
      | update old new =>
        cases old with
        | node n => cases hg
        | _ => exact ⟨g, hg⟩
      | delete k => exact ⟨g, hg⟩
    · rw [mem_flushed hm]
      exact hid
  | drain hd hread _ _ hw _ =>
    rw [hw, List.mem_cons, List.mem_singleton] at hm
    rcases hm with rfl | rfl
    · cases hd <;> exact id_of_read_node hread
    · cases hd <;> trivial
  | drained hd _ _ hw => rw [hw] at hm; simp at hm
  | undrain hread _ _ hw _ =>
    rw [hw, List.mem_cons, List.mem_singleton] at hm
    rcases hm with rfl | rfl
    · exact id_of_read_node hread
    · trivial
  | deleteNode hread _ _ _ _ hw _ =>
    rw [hw, List.mem_cons] at hm
    rcases hm with rfl | hm
    · trivial
    · rw [id_of_read_node hread] at hm
      exact may_of_deletion hm
  | deletedNode _ _ _ _ hw _ => rw [hw, List.mem_singleton] at hm; subst hm; trivial
  | submitJob _ _ _ _ _ hw _ =>
    rw [hw, List.mem_cons, List.mem_singleton] at hm
    rcases hm with rfl | rfl <;> trivial
  | claimJob _ _ _ _ _ hw _ =>
    rw [hw, List.mem_cons, List.mem_singleton] at hm
    rcases hm with rfl | rfl <;> trivial
  | completeJob _ hread _ _ _ _ _ hw _ =>
    rw [hw, List.mem_cons, List.mem_append, List.mem_singleton] at hm
    rcases hm with rfl | hm | rfl
    · exact id_of_read_job hread
    · obtain ⟨u, v, rfl⟩ := update_of_mem_billWrites hm
      trivial
    · trivial
  | cancelQueued hc hread _ _ hw _ =>
    rw [hw, List.mem_cons, List.mem_singleton] at hm
    rcases hm with rfl | rfl
    · cases hc <;> exact id_of_read_job hread
    · cases hc <;> trivial
  | requestCancel hc hread _ _ _ hw _ =>
    rw [hw, List.mem_cons, List.mem_singleton] at hm
    rcases hm with rfl | rfl
    · cases hc <;> exact id_of_read_job hread
    · cases hc <;> trivial
  | cancelAgain hc _ _ _ hw _ =>
    rw [hw, List.mem_singleton] at hm
    subst hm
    cases hc <;> trivial

end GpuNetwork
