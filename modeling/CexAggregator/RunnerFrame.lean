import CexAggregator.Runner

/-!
# What the runner leaves alone

Closing, backing off and asking for a snapshot do not touch the protocol, the session
numbers or the ring. The lemmas say which acts each of these handlers may do and what it
keeps of the runner.
-/

namespace CexAggregator

def QuietAct : Act Note Query → Prop
  | .emitted (.stored state) => state = .kDisconnected ∨ state = .kStale
  | .emitted (.scheduled _) => True
  | .asked .stopping _ => True
  | _ => False

namespace Runner
open Program
variable {σ : Type} {p : VenueProtocol σ} {options : Options} {reading : Reading}
  {r r' r'' : Runner σ}

/-- The same session in the same state; timers, backoff and budget may differ. -/
structure Kept (r r' : Runner σ) : Prop where
  protocol : r'.protocol = r.protocol
  generation : r'.generation = r.generation
  connections : r'.connections = r.connections
  requests : r'.requests = r.requests
  resets : r'.resets = r.resets
  stats : r'.stats = r.stats

theorem Kept.refl (r : Runner σ) : Kept r r := ⟨rfl, rfl, rfl, rfl, rfl, rfl⟩

theorem Kept.trans (h : Kept r r') (h' : Kept r' r'') : Kept r r'' :=
  ⟨h'.protocol.trans h.protocol, h'.generation.trans h.generation,
    h'.connections.trans h.connections, h'.requests.trans h.requests, h'.resets.trans h.resets,
    h'.stats.trans h.stats⟩

theorem setConnection_self (r : Runner σ) (id : ℕ) : r.setConnection id (r.connections id) = r := by
  simp [setConnection]

theorem scheduleReconnect_within (r : Runner σ) :
    Within QuietAct (Kept r) (scheduleReconnect reading r) := by
  rw [scheduleReconnect, within_bind, within_query]
  intro stopping
  refine ⟨trivial, ?_⟩
  split_ifs
  · exact Kept.refl r
  · rw [within_bind, within_tell]
    exact ⟨trivial, ⟨rfl, rfl, rfl, rfl, rfl, rfl⟩⟩

theorem onClose_within (r : Runner σ) : Within QuietAct (Kept r) (onClose reading r) := by
  rw [onClose, within_bind, setState, within_tell]
  refine ⟨Or.inl rfl, ?_⟩
  rw [within_bind, within_query]
  intro stopping
  refine ⟨trivial, ?_⟩
  split_ifs
  · exact Kept.refl r
  · exact scheduleReconnect_within r

theorem settle_within (r : Runner σ) (id : ℕ) (outcome : WsConnection × Bool) :
    Within QuietAct (Kept (r.setConnection id outcome.1)) (settle reading r id outcome) := by
  rw [settle]
  split_ifs
  · exact onClose_within _
  · exact Kept.refl _

end Runner

namespace Runner
open Program
variable {σ : Type} {p : VenueProtocol σ} {options : Options} {reading : Reading}
  {r r' : Runner σ}

/-- Like `Kept`, with another current connection that opens and reads the same. -/
def Rewired (r r' : Runner σ) : Prop :=
  ∃ c, (r.connections r.generation).SameInbound c ∧ Kept (r.setConnection r.generation c) r'

theorem Rewired.of_kept (h : Kept r r') : Rewired r r' :=
  ⟨_, .refl _, by rwa [setConnection_self]⟩

theorem closeConnection_within (r : Runner σ) :
    Within QuietAct (Rewired r) (closeConnection reading r) := by
  rw [closeConnection]
  split_ifs
  · exact .of_kept (.refl r)
  · exact (settle_within _ _ _).mono fun r' h =>
      ⟨_, (WsConnection.close_settles _).toSameInbound, h⟩

theorem snapshotFailed_within (r : Runner σ) :
    Within QuietAct (Kept r) (snapshotFailed reading r) := by
  rw [snapshotFailed, within_bind, within_query]
  intro stopping
  refine ⟨trivial, ?_⟩
  split_ifs
  · exact Kept.refl r
  · exact onClose_within r

def Requested (r r' : Runner σ) : Prop :=
  ∃ issued, (∀ q ∈ issued, q = ⟨r.generation, r.resets⟩) ∧
    Kept { r with requests := r.requests ++ issued } r'

theorem Requested.of_kept (h : Kept r r') : Requested r r' :=
  ⟨[], by simp, ⟨h.protocol, h.generation, h.connections, by simp [h.requests], h.resets, h.stats⟩⟩

theorem fetchSnapshot_within (r : Runner σ) :
    Within QuietAct (Requested r) (fetchSnapshot p reading r) := by
  rw [fetchSnapshot, within_bind, within_query]
  intro stopping
  refine ⟨trivial, ?_⟩
  have hcharged : Kept r { r with resyncBudget := (r.resyncBudget.tryConsume reading.now).2 } :=
    ⟨rfl, rfl, rfl, rfl, rfl, rfl⟩
  split_ifs
  · exact .of_kept (.refl r)
  · exact (scheduleReconnect_within _).mono fun r' h => Requested.of_kept (hcharged.trans h)
  · split
    · exact (snapshotFailed_within _).mono fun r' h => Requested.of_kept (hcharged.trans h)
    · exact ⟨[⟨r.generation, r.resets⟩], by simp, ⟨rfl, rfl, rfl, rfl, rfl, rfl⟩⟩

theorem armWatchdog_within (r : Runner σ) : Within QuietAct (Kept r) (armWatchdog r) := by
  rw [armWatchdog, within_bind, within_query]
  intro stopping
  refine ⟨trivial, ?_⟩
  split_ifs
  · exact Kept.refl r
  · exact ⟨rfl, rfl, rfl, rfl, rfl, rfl⟩

theorem onWatchdog_within (r : Runner σ) :
    Within QuietAct (Rewired r) (onWatchdog options reading r) := by
  rw [onWatchdog, within_bind, within_query]
  intro stopping
  refine ⟨trivial, ?_⟩
  split_ifs
  · exact .of_kept (.refl r)
  · rw [within_bind, setState, within_tell]
    exact ⟨Or.inr rfl, closeConnection_within r⟩
  · exact (armWatchdog_within r).mono fun _ h => .of_kept h

end Runner

end CexAggregator
