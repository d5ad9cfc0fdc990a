import SpaceServe.Engine.Persistent
import SpaceServe.Engine.Results

/-!
# The model runner in runs of the engine

In every run of an engine with a single process and unique request ids the worker knows the requests
that were scheduled, an output may be sent to it, and its rows hold the states of their requests.

* `RunnerInv`, `RunnerInv.sentTo`: what holds between two events;
* **`RunnerInv.step`**.
-/

set_option autoImplicit false

namespace SpaceServe

open Py

section

variable {ρ : Type} (p : SchedulerParams)

/-- The requests that have left the scheduler. -/
def Gone (s : Scheduler) (t : Traces) (id : ReqId) : Prop := id ∈ t.seen ∧ id ∉ s.requests.keys

/-- The scheduler and the worker agree on the requests, and the rows are faithful. -/
structure RunnerInv (c : EngineCore (GPUModelRunner (List ρ))) (t : Traces) : Prop where
  queues : Queues p c.scheduler t
  told : Told p (Gone c.scheduler t) c.scheduler c.executor
  faithful : c.executor.inputBatch.Faithful c.executor.requests

theorem RunnerInv.init :
    RunnerInv p (.init p (.init p.maxNumRunningReqs) : EngineCore (GPUModelRunner (List ρ)))
      EngineLog.empty.traces := by
  refine ⟨Queues.init p, ⟨fun id hid => ?_, fun id hid => ?_, fun id st hst => ?_, 0, ?_⟩, ?_⟩
  · cases hid
  · cases hid
  · cases hst
  · exact InputBatch.Inv.init _
  · exact InputBatch.Faithful.init _

variable {p} {c c' : EngineCore (GPUModelRunner (List ρ))} {t t' : Traces}
  {e : EngineEvent (List ρ) (List TokenId)} {s s' : Scheduler} {w w' : GPUModelRunner (List ρ)}

/-- Requests that have left stay away. -/
theorem Gone.step (hq : Queues p c.scheduler t) (hu : UniqueIds t.seen e)
    (hs : Stepped p (uniProcExecutor ρ p.maxNumRunningReqs) c t e c' t')
    (hseen : ∀ id ∈ t.seen, id ∈ t'.seen) {id : ReqId} (h : Gone c.scheduler t id) :
    Gone c'.scheduler t' id := by
  refine ⟨hseen id h.1, fun hk => ?_⟩
  exact (Alive.of_step hq hu hs (Or.inl hk)).elim h.2 fun hnot => hnot h.1

/-- An output may be sent to the worker. -/
theorem RunnerInv.sentTo (h : RunnerInv p c t) {available : ReqId → ℕ → Bool} {out : SchedulerOutput}
    (hs : c.scheduler.schedule p available = .ok (out, s)) (hreq : w.requests = c.executor.requests)
    (hbatch : w.inputBatch = c.executor.inputBatch) :
    GPUModelRunner.SentTo p.maxNumRunningReqs w out := by
  have htold : Told p (Gone c.scheduler t) c.scheduler w :=
    h.told.congr hreq (by rw [hbatch]) (by rw [hbatch])
  exact htold.sentTo h.queues.wf (fun _ hg => hg.2) hs

/-- `_update_states` of an output. -/
theorem RunnerInv.updateStates (h : RunnerInv p c t) {available : ReqId → ℕ → Bool}
    {out : SchedulerOutput} (hs : c.scheduler.schedule p available = .ok (out, s))
    (hreq : w.requests = c.executor.requests) (hbatch : w.inputBatch = c.executor.inputBatch) :
    ∃ changed w', w.updateStates p.maxNumRunningReqs out = .ok (changed, w') ∧
      GPUModelRunner.Updated p.maxNumRunningReqs w w' out := by
  obtain ⟨n, hinv⟩ := h.told.batch
  exact GPUModelRunner.updateStates_spec (hbatch ▸ hinv) (h.sentTo hs hreq hbatch)

/-- **Every event keeps the agreement.** -/
theorem RunnerInv.step (h : RunnerInv p c t) (hu : UniqueIds t.seen e)
    (hs : Stepped p (uniProcExecutor ρ p.maxNumRunningReqs) c t e c' t') : RunnerInv p c' t' := by
  have hq := h.queues.step hu hs
  have hgone : (∀ id ∈ t.seen, id ∈ t'.seen) → ∀ id, Gone c.scheduler t id →
      Gone c'.scheduler t' id := fun hseen id hg => hg.step h.queues hu hs hseen
  cases hs with
  | add r =>
    refine ⟨hq, (h.told.addRequest hu.1 fun hk => hu.2 (h.queues.seen _ hk)).mono (hgone ?_),
      h.faithful⟩
    exact fun id hid => List.mem_append_left _ hid
  | abort hf =>
    obtain ⟨-, ho⟩ := Scheduler.finishRequests_onward h.queues.wf hf
    exact ⟨hq, (h.told.onward ho (Scheduler.finishRequests_noticed h.queues.wf hf)).mono
      (hgone fun _ hid => hid), h.faithful⟩
  | reset => exact ⟨hq, ⟨h.told.sent, h.told.rows, h.told.states, h.told.batch⟩, h.faithful⟩
  | @result res executor hh =>
    have hres : EngineCore.handle (uniProcExecutor ρ p.maxNumRunningReqs) c.executor (some res) =
      .ok executor := hh
    obtain ⟨hreq, hbatch, -⟩ := EngineRun.handle_uniProc hres
    refine ⟨hq, h.told.congr hreq (by rw [hbatch]) (by rw [hbatch]), ?_⟩
    rw [hreq, hbatch]
    exact h.faithful
  | idle => exact h
  | discard hsched hh hz =>
    obtain ⟨hreq, hbatch, -⟩ := EngineRun.handle_uniProc hh
    have htold := h.told.congr hreq (by rw [hbatch]) (by rw [hbatch])
    refine ⟨hq, (htold.discard h.queues.wf hsched hz).mono fun id hid => ?_, ?_⟩
    · refine hgone (fun _ hid => hid) id (hid.elim (fun hg => hg) fun hfin => ?_)
      exact h.queues.finished id hfin
    · rw [hreq, hbatch]
      exact h.faithful
  | execute hsched hh hz he hup =>
    obtain ⟨hreq, hbatch, -⟩ := EngineRun.handle_uniProc hh
    obtain ⟨changed, w₁, _, metadata, w₂, hup₁, -, hprep, happ, -⟩ :=
      GPUModelRunner.executeModel_parts he
    obtain ⟨_, _, hup', hupd⟩ := h.updateStates hsched hreq hbatch
    rw [hup₁] at hup'
    cases hup'
    have htold := h.told.congr hreq (by rw [hbatch]) (by rw [hbatch])
    have htold₁ : Told p (Gone c.scheduler t) _ w₁ := htold.schedule h.queues.wf hsched hupd
    obtain ⟨p1, p2, p3, p4⟩ := GPUModelRunner.prepareSampling_spec hprep
    have htold₂ := htold₁.congr p1 p2 p3
    obtain ⟨n, hinv⟩ := htold₂.batch
    have hw := (h.queues.schedule hsched).wf
    obtain ⟨-, ho⟩ := Scheduler.updateFromOutput_onward hw hup
    refine ⟨hq, ((htold₂.sample happ).onward ho (Scheduler.updateFromOutput_noticed hw hup)).mono
      (hgone fun _ hid => hid), ?_⟩
    refine (GPUModelRunner.appendRows_spec hinv happ).2.2.2 (p4 (hupd.faithful ?_))
    rw [hreq, hbatch]
    exact h.faithful

end

end SpaceServe
