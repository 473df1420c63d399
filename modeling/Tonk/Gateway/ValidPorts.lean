import Tonk.Gateway.PortMapping

set_option autoImplicit false

namespace Tonk.Gateway
open Transition

namespace ControlRequest

def soapCall (c : ControlRequest) (app : AppRequest) (env : BeginEnv) : Option ControlRequest :=
  match c.requester with
  | none => c.idleCall app env
  | some q =>
    if q.reply.isSome && q.asyncRefs = 0 then { c with requester := none }.idleCall app env
    else none

def ValidPort (c : ControlRequest) (app : AppRequest) (random : Nat) : Prop :=
  c.externalPort app random ≠ 0 ∧ (app.type = .remove → c.addedExternalPort ≠ 0)

/-- With the network up and no request in flight, a mapping is not wanted and not there, and retries
are left for it. -/
def Withdrawn (c : ControlRequest) (app : AppRequest) (env : BeginEnv) : Prop :=
  app.type = .remove ∧ c.addedExternalPort = 0 ∧ 0 < c.retriesRemaining ∧
    env.networkDown = false ∧ c.Idle

theorem validPort_iff (c : ControlRequest) (app : AppRequest) (random : Nat) :
    c.ValidPort app random ↔ (app.type = .remove → c.addedExternalPort ≠ 0) := by
  refine ⟨fun h => h.2, fun h => ⟨?_, h⟩⟩
  cases htype : app.type with
  | remove =>
    rw [externalPort, htype]
    exact h htype
  | add =>
    by_cases hadded : c.addedExternalPort = 0
    · exact externalPort_ne random (.inr ⟨hadded, htype⟩)
    · simp only [externalPort, htype, calculateRandomNATPort]
      rw [if_neg hadded]
      split
      · omega
      · exact hadded

theorem retries_of_remove {c : ControlRequest} {app : AppRequest} (nowUsec : Nat)
    (hremove : app.type = .remove) (hadded : c.addedExternalPort = 0) :
    ((c.noteApp app).renew app nowUsec).retriesRemaining = c.retriesRemaining := by
  have hnote : (c.noteApp app).retriesRemaining = c.retriesRemaining := by
    unfold noteApp
    split
    · simp only
      rw [if_neg (fun h => h.2 hadded), if_neg (fun h => absurd (h.1.symm.trans hremove) (by decide))]
    · rfl
  rw [renew, if_neg (fun h => absurd (h.1.symm.trans hremove) (by decide)), hnote]

theorem idleCall_valid_iff (c : ControlRequest) (app : AppRequest) (env : BeginEnv) (random : Nat) :
    (∀ d ∈ c.idleCall app env, d.ValidPort app random) ↔
      ¬(app.type = .remove ∧ c.addedExternalPort = 0 ∧ 0 < c.retriesRemaining ∧
        env.networkDown = false) := by
  have hframe : ((c.noteApp app).renew app env.nowUsec).addedExternalPort =
      c.addedExternalPort := by
    rw [((c.noteApp app).renew_frame app env.nowUsec).2.2.1, (c.noteApp_frame app).2.2.1]
  constructor
  · rintro hvalid ⟨hremove, hadded, hleft, hup⟩
    have hretries := retries_of_remove env.nowUsec hremove hadded
    have hcall := hvalid _ (by
      rw [idleCall, hup, if_neg Bool.false_ne_true, if_neg (by rw [hretries]; omega)]
      rfl)
    exact hcall.2 hremove (hframe.trans hadded)
  · intro hnot d hd
    rw [validPort_iff]
    intro hremove hzero
    simp only [idleCall] at hd
    split at hd
    · cases hd
    · next hup =>
      split at hd
      · cases hd
      · next hleft =>
        rw [← Option.some.inj hd] at hzero
        have hadded := hframe.symm.trans hzero
        rw [retries_of_remove env.nowUsec hremove hadded] at hleft
        exact hnot ⟨hremove, hadded, not_le.mp hleft, Bool.not_eq_true _ ▸ hup⟩

theorem soapCall_valid_iff (c : ControlRequest) (app : AppRequest) (env : BeginEnv)
    (random : Nat) :
    (∀ d ∈ c.soapCall app env, d.ValidPort app random) ↔ ¬c.Withdrawn app env := by
  unfold soapCall Withdrawn
  cases hrequester : c.requester with
  | none =>
    have hidle : c.Idle := by
      rw [Idle, hrequester]
      exact nofun
    simp only [idleCall_valid_iff, hidle, and_true]
  | some q =>
    have hidle : c.Idle ↔ q.reply.isSome = true ∧ q.asyncRefs = 0 := by
      rw [Idle, hrequester]
      exact ⟨fun h => h q rfl, fun h q' hq' => Option.some.inj hq' ▸ h⟩
    by_cases hdone : (q.reply.isSome && decide (q.asyncRefs = 0)) = true
    · have hgone : c.Idle := by
        rw [hidle]
        simpa using hdone
      simp only [if_pos hdone, idleCall_valid_iff, hgone, and_true]
    · have hgone : ¬c.Idle := by
        rw [hidle]
        simpa using hdone
      simp only [if_neg hdone, hgone, and_false, not_false_eq_true, iff_true]
      exact nofun

end ControlRequest

namespace StateMachine

/-- The calls of BeginControlSOAPRequests in an event: the endpoint, the requests of the application,
and what it finds. -/
def begun (s : StateMachine) : Event → List (ControlEndpoint × List AppRequest × BeginEnv)
  | .tick env => (s.controlEndpoints.filter (·.endpointActive)).map fun control =>
    (control, s.apiRequests, env)
  | .xmlResponse controlIndex env =>
    [(s.controlEndpoints.getD controlIndex ⟨[], true⟩, s.requests, env)]
  | _ => []

def EveryTurn (s : StateMachine) (event : Event)
    (p : ControlRequest → AppRequest → BeginEnv → Nat → Prop) : Prop :=
  ∀ call ∈ s.begun event, ∀ (requestIndex : Nat) (app : AppRequest),
    call.2.1[requestIndex]? = some app →
      p (call.1.requests.getD requestIndex .initial) app call.2.2 requestIndex

def ValidRequests : StateMachine → List Event → Prop
  | _, [] => True
  | s, event :: events =>
    s.EveryTurn event (fun c app env requestIndex =>
      ∀ d ∈ c.soapCall app env, d.ValidPort app (env.random requestIndex)) ∧
    (s.next event).ValidRequests events

/-- No turn finds a mapping withdrawn that is not there and has retries left. -/
def NeverWithdrawn : StateMachine → List Event → Prop
  | _, [] => True
  | s, event :: events =>
    s.EveryTurn event (fun c app env _ => ¬c.Withdrawn app env) ∧
    (s.next event).NeverWithdrawn events

/-- In every run, the requests have valid ports if and only if no turn finds a mapping withdrawn that
is not there and has retries left. -/
theorem validRequests_iff (events : List Event) :
    initial.ValidRequests events ↔ initial.NeverWithdrawn events := by
  generalize initial = s
  induction events generalizing s with
  | nil => exact Iff.rfl
  | cons event events ih =>
    simp only [ValidRequests, NeverWithdrawn, EveryTurn, ControlRequest.soapCall_valid_iff]
    exact and_congr Iff.rfl (ih (s.next event))

theorem gamePort_ne : 5000 ≠ 0 := by decide

def withdrawnEvents : List Event :=
  [.apiRequest ⟨.add, 5000, gamePort_ne⟩, .apiRequest ⟨.remove, 5000, gamePort_ne⟩, .tick online,
    .xmlResponse 0 online]

/-- The first request to the endpoint is to remove the port 0. -/
theorem not_validRequests : ¬∀ events : List Event, initial.ValidRequests events := by
  intro h
  have hvalid := (h withdrawnEvents).2.2.2.1
  have hturn := hvalid (⟨[], true⟩, [⟨.remove, 5000, by decide⟩], online) (List.mem_singleton.mpr rfl)
    0 ⟨.remove, 5000, by decide⟩ rfl { ControlRequest.initial with retriesRemaining := 2 } rfl
  exact hturn.1 rfl

end StateMachine
end Tonk.Gateway
