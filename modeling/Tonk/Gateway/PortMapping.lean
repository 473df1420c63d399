import Mathlib.Tactic
import Tonk.Lib.Run

/-!
The port mappings that `TonkineseNAT` asks a gateway for over UPnP. The application changes what it
wants at any time, requests are answered at any time, and the LAN may change under them.
-/

set_option autoImplicit false

namespace Tonk.Gateway
open Transition

def kUPnPLeaseDurationSecs : Nat := 3 * 60
def kUPnPLeaseRenewSecs : Nat := kUPnPLeaseDurationSecs - 10
def kPortMappingRetries : Int := 3
def kTimeoutUsec : Nat := 15 * 1000000

inductive RequestType where
  | add
  | remove
  deriving DecidableEq, Repr

structure AppRequest where
  type : RequestType
  localPort : Nat
  localPort_ne : localPort ≠ 0
  deriving DecidableEq

inductive Reply where
  | failed
  | response (code : Nat)
  deriving DecidableEq, Repr

/-- A control request on its way or done, with what its callback has captured. `overtaken` tells if the
LAN changed before the reply came; the code does not keep it. -/
structure HTTPRequester where
  app : AppRequest
  externalPort : Nat
  startUsec : Nat
  asyncRefs : Nat
  reply : Option Reply
  overtaken : Bool

/-- `answered` tells if the last request made was answered with 200; the code does not keep it. -/
structure ControlRequest where
  lastApp : RequestType
  retriesRemaining : Int
  requester : Option HTTPRequester
  failedRequestedPort : Bool
  addedExternalPort : Nat
  addAgainOnTimer : Bool
  lastSuccessUsec : Nat
  answered : Bool

def ControlRequest.initial : ControlRequest :=
  ⟨.remove, kPortMappingRetries, none, false, 0, false, 0, false⟩

structure ControlEndpoint where
  requests : List ControlRequest
  endpointActive : Bool

/-- `apiRequests` is what the application wants, and `requests` the copy of the background thread. -/
structure StateMachine where
  apiRequests : List AppRequest
  requests : List AppRequest
  controlEndpoints : List ControlEndpoint

/-- What BeginControlSOAPRequests finds: the time, the network, and for each request if one can be
started and the random number for its port. -/
structure BeginEnv where
  nowUsec : Nat
  networkDown : Bool
  started : Nat → Bool
  random : Nat → Nat

namespace ControlRequest

def onReply (c : ControlRequest) (q : HTTPRequester) (reply : Reply) (nowUsec : Nat) :
    ControlRequest :=
  let c := { c with failedRequestedPort := false }
  match reply with
  | .failed => c
  | .response code =>
    let c := { c with addAgainOnTimer := false }
    if code ≠ 200 then
      if q.app.type = .add then { c with failedRequestedPort := true } else c
    else
      let c := { c with lastSuccessUsec := nowUsec, retriesRemaining := 0, answered := true }
      match q.app.type with
      | .add => { c with addedExternalPort := q.externalPort, addAgainOnTimer := true }
      | .remove => { c with addedExternalPort := 0 }

def onDone (c : ControlRequest) (q : HTTPRequester) (reply : Reply) (nowUsec : Nat) :
    ControlRequest :=
  if q.reply.isSome then c
  else { c.onReply q reply nowUsec with requester := some { q with reply := some reply } }

def reply (c : ControlRequest) (reply : Reply) (nowUsec : Nat) : ControlRequest :=
  match c.requester with
  | none => c
  | some q => c.onDone q reply nowUsec

def setAsyncRefs (c : ControlRequest) (asyncRefs : Nat) : ControlRequest :=
  { c with requester := c.requester.map fun q => { q with asyncRefs := asyncRefs } }

def noteApp (c : ControlRequest) (app : AppRequest) : ControlRequest :=
  if c.lastApp ≠ app.type then
    let c := { c with lastApp := app.type }
    if app.type = .remove ∧ c.addedExternalPort ≠ 0 then
      { c with retriesRemaining := kPortMappingRetries, addAgainOnTimer := false }
    else if app.type = .add ∧ c.addedExternalPort = 0 then
      { c with retriesRemaining := kPortMappingRetries }
    else c
  else c

def renew (c : ControlRequest) (app : AppRequest) (nowUsec : Nat) : ControlRequest :=
  if app.type = .add ∧ c.addAgainOnTimer ∧ c.addedExternalPort ≠ 0 ∧
      kUPnPLeaseRenewSecs * 1000 * 1000 < (nowUsec + 2 ^ 64 - c.lastSuccessUsec) % 2 ^ 64 then
    { c with retriesRemaining := kPortMappingRetries }
  else c

def calculateRandomNATPort (random : Nat) : Nat := 1024 + random % (65536 - 1024)

def externalPort (c : ControlRequest) (app : AppRequest) (random : Nat) : Nat :=
  match app.type with
  | .add =>
    if c.failedRequestedPort then calculateRandomNATPort random
    else if c.addedExternalPort = 0 then app.localPort
    else c.addedExternalPort
  | .remove => c.addedExternalPort

def requestSOAP (c : ControlRequest) (app : AppRequest) (started : Bool) (random nowUsec : Nat) :
    ControlRequest :=
  let c := { c with answered := false }
  let externalPort := c.externalPort app random
  if externalPort = 0 ∨ app.localPort = 0 then c
  else if started then
    { c with requester := some ⟨app, externalPort, nowUsec, 1, none, false⟩ }
  else c

/-- The control request as RequestSOAP finds it, if a turn with no request on its way gets there. -/
def idleCall (c : ControlRequest) (app : AppRequest) (env : BeginEnv) : Option ControlRequest :=
  let c := (c.noteApp app).renew app env.nowUsec
  if env.networkDown then none
  else if c.retriesRemaining ≤ 0 then none
  else some { c with retriesRemaining := c.retriesRemaining - 1 }

/-- The rest of a turn of BeginControlSOAPRequests, with no request on its way. -/
def beginIdle (c : ControlRequest) (app : AppRequest) (env : BeginEnv) (requestIndex : Nat) :
    ControlRequest :=
  match c.idleCall app env with
  | none => (c.noteApp app).renew app env.nowUsec
  | some c => c.requestSOAP app (env.started requestIndex) (env.random requestIndex) env.nowUsec

/-- A turn of BeginControlSOAPRequests. OnTick_IsDisposable ends a request that takes too long, and
frees one that is done in a later turn. -/
def beginRequest (c : ControlRequest) (app : AppRequest) (env : BeginEnv) (requestIndex : Nat) :
    ControlRequest :=
  match c.requester with
  | none => c.beginIdle app env requestIndex
  | some q =>
    if q.reply.isSome && q.asyncRefs = 0 then
      { c with requester := none }.beginIdle app env requestIndex
    else if kTimeoutUsec ≤ (env.nowUsec + 2 ^ 64 - q.startUsec) % 2 ^ 64 then
      c.onDone q .failed env.nowUsec
    else c

def onLANChange (c : ControlRequest) : ControlRequest :=
  { c with
    addAgainOnTimer := false
    addedExternalPort := 0
    failedRequestedPort := false
    lastApp := .remove
    lastSuccessUsec := 0
    retriesRemaining := kPortMappingRetries
    requester := c.requester.map fun q => { q with overtaken := true } }

end ControlRequest

namespace ControlEndpoint

/-- The requests are resized to those of the application first. -/
def beginControlSOAPRequests (control : ControlEndpoint) (requests : List AppRequest)
    (env : BeginEnv) : ControlEndpoint :=
  { control with
    requests := requests.mapIdx fun i app =>
      (control.requests.getD i .initial).beginRequest app env i }

def modifyRequest (control : ControlEndpoint) (requestIndex : Nat)
    (f : ControlRequest → ControlRequest) : ControlEndpoint :=
  { control with requests := control.requests.modify requestIndex f }

end ControlEndpoint

inductive Event where
  | apiRequest (request : AppRequest)
  | tick (env : BeginEnv)
  /-- A gateway tells of an endpoint, which is known or new. -/
  | xmlResponse (controlIndex : Nat) (env : BeginEnv)
  | reply (controlIndex requestIndex : Nat) (reply : Reply) (nowUsec : Nat)
  | asyncRefs (controlIndex requestIndex asyncRefs : Nat)
  | lanChange

namespace StateMachine

def initial : StateMachine := ⟨[], [], []⟩

def apiRequest (s : StateMachine) (request : AppRequest) : StateMachine :=
  { s with
    apiRequests := if s.apiRequests.any (·.localPort = request.localPort) then
        s.apiRequests.map fun r => if r.localPort = request.localPort then request else r
      else s.apiRequests ++ [request] }

def onTick (s : StateMachine) (env : BeginEnv) : StateMachine :=
  { s with
    requests := s.apiRequests
    controlEndpoints := s.controlEndpoints.map fun control =>
      if control.endpointActive then control.beginControlSOAPRequests s.apiRequests env
      else control }

def onXMLResponse (s : StateMachine) (controlIndex : Nat) (env : BeginEnv) : StateMachine :=
  let endpoints := if controlIndex < s.controlEndpoints.length then s.controlEndpoints
    else s.controlEndpoints ++ [⟨[], true⟩]
  { s with
    controlEndpoints := endpoints.modify (min controlIndex s.controlEndpoints.length) fun control =>
      { control with endpointActive := true }.beginControlSOAPRequests s.requests env }

def modifyRequest (s : StateMachine) (controlIndex requestIndex : Nat)
    (f : ControlRequest → ControlRequest) : StateMachine :=
  { s with
    controlEndpoints := s.controlEndpoints.modify controlIndex fun control =>
      control.modifyRequest requestIndex f }

def onLANChange (s : StateMachine) : StateMachine :=
  { s with
    controlEndpoints := s.controlEndpoints.map fun control =>
      ⟨control.requests.map ControlRequest.onLANChange, false⟩ }

def next (s : StateMachine) : Event → StateMachine
  | .apiRequest request => s.apiRequest request
  | .tick env => s.onTick env
  | .xmlResponse controlIndex env => s.onXMLResponse controlIndex env
  | .reply controlIndex requestIndex reply nowUsec =>
    s.modifyRequest controlIndex requestIndex fun c => c.reply reply nowUsec
  | .asyncRefs controlIndex requestIndex asyncRefs =>
    s.modifyRequest controlIndex requestIndex fun c => c.setAsyncRefs asyncRefs
  | .lanChange => s.onLANChange

def Step (s : StateMachine) (event : Event) (t : StateMachine) : Prop := t = s.next event

end StateMachine

namespace ControlRequest

/-- No request is in flight: there is none, or it is done and nothing refers to it. -/
def Idle (c : ControlRequest) : Prop :=
  ∀ q ∈ c.requester, q.reply.isSome = true ∧ q.asyncRefs = 0

/-- The mapping is there and not wanted, or it is wanted and not there. -/
def Differs (c : ControlRequest) (wanted : RequestType) : Prop :=
  c.addedExternalPort ≠ 0 ∧ wanted = .remove ∨ c.addedExternalPort = 0 ∧ wanted = .add

def Issued (c : ControlRequest) (app : AppRequest) : Prop :=
  ∃ q ∈ c.requester, q.app = app ∧ q.reply = none

structure Consistent (c : ControlRequest) : Prop where
  live : ∀ q ∈ c.requester, q.reply = none →
    (q.app.type = c.lastApp ∨ q.overtaken = true ∧ c.lastApp = .remove) ∧ q.externalPort ≠ 0
  settled : c.answered = true → c.Differs c.lastApp → 0 < c.retriesRemaining

theorem kPortMappingRetries_pos : 0 < kPortMappingRetries := by decide

theorem consistent_initial : initial.Consistent := ⟨nofun, nofun⟩

theorem noteApp_frame (c : ControlRequest) (app : AppRequest) :
    (c.noteApp app).lastApp = app.type ∧ (c.noteApp app).requester = c.requester ∧
      (c.noteApp app).addedExternalPort = c.addedExternalPort ∧
      (c.noteApp app).answered = c.answered := by
  unfold noteApp
  split
  · simp only
    split
    · exact ⟨rfl, rfl, rfl, rfl⟩
    · split <;> exact ⟨rfl, rfl, rfl, rfl⟩
  · next hsame => exact ⟨not_not.mp hsame, rfl, rfl, rfl⟩

theorem Consistent.noteApp_retries {c : ControlRequest} (h : c.Consistent) (app : AppRequest)
    (hanswered : c.answered = true) (hdiffers : c.Differs app.type) :
    0 < (c.noteApp app).retriesRemaining := by
  unfold noteApp
  split
  · rcases hdiffers with ⟨hadded, hremove⟩ | ⟨hadded, hadd⟩
    · rw [if_pos ⟨hremove, hadded⟩]
      exact kPortMappingRetries_pos
    · rw [if_neg fun hcontra => hcontra.2 hadded, if_pos ⟨hadd, hadded⟩]
      exact kPortMappingRetries_pos
  · next hsame =>
    rw [← not_not.mp hsame] at hdiffers
    exact h.settled hanswered hdiffers

theorem renew_frame (c : ControlRequest) (app : AppRequest) (nowUsec : Nat) :
    (c.renew app nowUsec).lastApp = c.lastApp ∧
      (c.renew app nowUsec).requester = c.requester ∧
      (c.renew app nowUsec).addedExternalPort = c.addedExternalPort ∧
      (c.renew app nowUsec).answered = c.answered ∧
      (0 < c.retriesRemaining → 0 < (c.renew app nowUsec).retriesRemaining) := by
  unfold renew
  split
  · exact ⟨rfl, rfl, rfl, rfl, fun _ => kPortMappingRetries_pos⟩
  · exact ⟨rfl, rfl, rfl, rfl, id⟩

theorem requestSOAP_spec (c : ControlRequest) (app : AppRequest) (started : Bool)
    (random nowUsec : Nat) :
    let d := c.requestSOAP app started random nowUsec
    d.lastApp = c.lastApp ∧ d.answered = false ∧
      (d.requester = c.requester ∨
        c.externalPort app random ≠ 0 ∧
          d.requester = some ⟨app, c.externalPort app random, nowUsec, 1, none, false⟩) ∧
      (c.externalPort app random ≠ 0 → started = true →
        d.requester = some ⟨app, c.externalPort app random, nowUsec, 1, none, false⟩) := by
  intro d
  have hd : d = c.requestSOAP app started random nowUsec := rfl
  have hport : ∀ answered, { c with answered := answered }.externalPort app random =
      c.externalPort app random := fun _ => rfl
  unfold requestSOAP at hd
  simp only [hport, app.localPort_ne, or_false] at hd
  split at hd
  · next hzero => exact hd ▸ ⟨rfl, rfl, .inl rfl, fun hne => absurd hzero hne⟩
  · next hne =>
    split at hd
    · exact hd ▸ ⟨rfl, rfl, .inr ⟨hne, rfl⟩, fun _ _ => rfl⟩
    · next hnot => exact hd ▸ ⟨rfl, rfl, .inl rfl, fun _ htrue => absurd htrue hnot⟩

theorem externalPort_ne {c : ControlRequest} {app : AppRequest} (random : Nat)
    (h : c.Differs app.type) : c.externalPort app random ≠ 0 := by
  unfold externalPort calculateRandomNATPort
  have hlocal := app.localPort_ne
  rcases h with ⟨hadded, hremove⟩ | ⟨hadded, hadd⟩
  · rw [hremove]
    exact hadded
  · rw [hadd]
    simp only
    split
    · omega
    · exact hlocal

theorem idleCall_eq {c d : ControlRequest} {app : AppRequest} {env : BeginEnv}
    (h : c.idleCall app env = some d) : { (c.noteApp app).renew app env.nowUsec with
      retriesRemaining := ((c.noteApp app).renew app env.nowUsec).retriesRemaining - 1 } = d := by
  simp only [idleCall] at h
  split at h
  · cases h
  · split at h
    · cases h
    · exact Option.some.inj h

theorem Consistent.beginIdle {c : ControlRequest} (h : c.Consistent) (app : AppRequest)
    (env : BeginEnv) (requestIndex : Nat) (hnone : c.requester = none) :
    (c.beginIdle app env requestIndex).Consistent := by
  obtain ⟨hlast, hrequester, hadded, hanswered⟩ := c.noteApp_frame app
  obtain ⟨hlast', hrequester', hadded', hanswered', hretries⟩ :=
    (c.noteApp app).renew_frame app env.nowUsec
  have hrenewed : ((c.noteApp app).renew app env.nowUsec).Consistent := by
    refine ⟨fun q hq => ?_, fun htrue hdiffers => hretries (h.noteApp_retries app ?_ ?_)⟩
    · rw [hrequester', hrequester, hnone] at hq
      cases hq
    · rw [← hanswered, ← hanswered', htrue]
    · rw [Differs, hadded', hadded, hlast', hlast] at hdiffers
      exact hdiffers
  unfold ControlRequest.beginIdle
  cases hcall : c.idleCall app env with
  | none => exact hrenewed
  | some d =>
    have hrest := idleCall_eq hcall
    obtain ⟨hd, hnot, hrequested, -⟩ :=
      d.requestSOAP_spec app (env.started requestIndex) (env.random requestIndex) env.nowUsec
    have hdrequester : d.requester = none := by
      rw [← hrest, hrequester', hrequester, hnone]
    have hdlast : d.lastApp = app.type := by
      rw [← hrest, hlast', hlast]
    refine ⟨fun q hq _ => ?_, fun htrue => absurd (hnot.symm.trans htrue) Bool.false_ne_true⟩
    rcases hrequested with hsame | ⟨hport, hnew⟩
    · rw [hsame, hdrequester] at hq
      cases hq
    · rw [hnew] at hq
      cases hq
      exact ⟨.inl (hd.trans hdlast).symm, hport⟩

theorem Consistent.issued {c : ControlRequest} (h : c.Consistent) {app : AppRequest}
    {env : BeginEnv} {requestIndex : Nat} (hanswered : c.answered = true)
    (hdiffers : c.Differs app.type) (hup : env.networkDown = false)
    (hstarted : env.started requestIndex = true) :
    (c.beginIdle app env requestIndex).Issued app := by
  obtain ⟨-, -, hadded, -⟩ := c.noteApp_frame app
  obtain ⟨-, -, hadded', -, hretries⟩ := (c.noteApp app).renew_frame app env.nowUsec
  have hleft := hretries (h.noteApp_retries app hanswered hdiffers)
  obtain ⟨d, hcall⟩ : ∃ d, c.idleCall app env = some d := by
    rw [idleCall, hup, if_neg Bool.false_ne_true, if_neg (not_le.mpr hleft)]
    exact ⟨_, rfl⟩
  have hrest := idleCall_eq hcall
  rw [ControlRequest.beginIdle, hcall]
  have hdiffers' : d.Differs app.type := by
    rw [← hrest, Differs, hadded', hadded]
    exact hdiffers
  obtain ⟨-, -, -, hnew⟩ :=
    d.requestSOAP_spec app (env.started requestIndex) (env.random requestIndex) env.nowUsec
  exact ⟨_, hnew (externalPort_ne _ hdiffers') hstarted, rfl, rfl⟩

/-- A 200 reply does not come for an Add request that a LAN change has overtaken. -/
def NotOvertaken (c : ControlRequest) (reply : Reply) : Prop :=
  reply = .response 200 → ∀ q ∈ c.requester, q.reply = none → q.app.type = .add →
    q.overtaken = false

theorem Consistent.onReply {c : ControlRequest} (h : c.Consistent) {q : HTTPRequester}
    {reply : Reply} (nowUsec : Nat) (hq : c.requester = some q) (hlive : q.reply = none)
    (hreply : c.NotOvertaken reply) :
    (c.onReply q reply nowUsec).answered = true →
      (c.onReply q reply nowUsec).Differs (c.onReply q reply nowUsec).lastApp →
      0 < (c.onReply q reply nowUsec).retriesRemaining := by
  obtain ⟨htype, hport⟩ := h.live q hq hlive
  unfold ControlRequest.onReply
  simp only
  split
  · exact h.settled
  · next code =>
    split
    · split <;> exact h.settled
    · next hcode =>
      rw [not_not] at hcode
      subst hcode
      cases hadd : q.app.type with
      | add =>
        have hlast : c.lastApp = .add := by
          rcases htype with hsame | ⟨htrue, -⟩
          · rw [← hsame, hadd]
          · rw [hreply rfl q hq hlive hadd] at htrue
            cases htrue
        rintro - (⟨-, hremove⟩ | ⟨hzero, -⟩)
        · exact absurd (hlast.symm.trans hremove) (by decide)
        · exact absurd hzero hport
      | remove =>
        have hlast : c.lastApp = .remove := by
          rcases htype with hsame | ⟨-, hremove⟩
          · rw [← hsame, hadd]
          · exact hremove
        rintro - (⟨hne, -⟩ | ⟨-, hadd⟩)
        · exact absurd rfl hne
        · exact absurd (hlast.symm.trans hadd) (by decide)

theorem Consistent.onDone {c : ControlRequest} (h : c.Consistent) {q : HTTPRequester}
    {reply : Reply} (nowUsec : Nat) (hq : c.requester = some q) (hreply : c.NotOvertaken reply) :
    (c.onDone q reply nowUsec).Consistent := by
  unfold ControlRequest.onDone
  split
  · exact h
  · next hlive =>
    rw [Option.not_isSome_iff_eq_none] at hlive
    refine ⟨fun q' hq' hnone => ?_, h.onReply nowUsec hq hlive hreply⟩
    cases hq'
    cases hnone

theorem Consistent.reply {c : ControlRequest} (h : c.Consistent) {reply : Reply} (nowUsec : Nat)
    (hreply : c.NotOvertaken reply) : (c.reply reply nowUsec).Consistent := by
  unfold ControlRequest.reply
  split
  · exact h
  · next q hq => exact h.onDone nowUsec hq hreply

theorem Consistent.beginRequest {c : ControlRequest} (h : c.Consistent) (app : AppRequest)
    (env : BeginEnv) (requestIndex : Nat) : (c.beginRequest app env requestIndex).Consistent := by
  unfold ControlRequest.beginRequest
  split
  · next hnone => exact h.beginIdle app env requestIndex hnone
  · next q hq =>
    split
    · have hgone : { c with requester := none }.Consistent := ⟨nofun, h.settled⟩
      exact hgone.beginIdle app env requestIndex rfl
    · split
      · exact h.onDone env.nowUsec hq fun hcontra => Reply.noConfusion hcontra
      · exact h

theorem Idle.beginRequest {c : ControlRequest} (h : c.Idle) (app : AppRequest) (env : BeginEnv)
    (requestIndex : Nat) : c.beginRequest app env requestIndex =
      { c with requester := none }.beginIdle app env requestIndex := by
  unfold ControlRequest.beginRequest
  cases hq : c.requester with
  | none =>
    have hsame : ({ c with requester := none } : ControlRequest) = c := by rw [← hq]
    rw [hsame]
  | some q =>
    obtain ⟨hdone, hrefs⟩ := h q hq
    simp only [hdone, hrefs, decide_true, Bool.and_self, if_true]

theorem Consistent.setAsyncRefs {c : ControlRequest} (h : c.Consistent) (asyncRefs : Nat) :
    (c.setAsyncRefs asyncRefs).Consistent := by
  refine ⟨fun q hq hlive => ?_, h.settled⟩
  obtain ⟨q', hq', rfl⟩ := Option.map_eq_some_iff.mp hq
  exact h.live q' hq' hlive

theorem Consistent.onLANChange {c : ControlRequest} (h : c.Consistent) :
    c.onLANChange.Consistent := by
  refine ⟨fun q hq hlive => ?_, fun _ _ => kPortMappingRetries_pos⟩
  obtain ⟨q', hq', rfl⟩ := Option.map_eq_some_iff.mp hq
  exact ⟨.inr ⟨rfl, rfl⟩, (h.live q' hq' hlive).2⟩

end ControlRequest

namespace StateMachine

def Inv (s : StateMachine) : Prop :=
  ∀ control ∈ s.controlEndpoints, ∀ c ∈ control.requests, c.Consistent

theorem inv_initial : initial.Inv := nofun

theorem beginControlSOAPRequests_consistent {control : ControlEndpoint}
    (h : ∀ c ∈ control.requests, c.Consistent) (requests : List AppRequest) (env : BeginEnv) :
    ∀ c ∈ (control.beginControlSOAPRequests requests env).requests, c.Consistent := by
  intro c hc
  obtain ⟨i, hi, rfl⟩ := List.mem_mapIdx.mp hc
  refine ControlRequest.Consistent.beginRequest ?_ _ env i
  rw [List.getD_eq_getElem?_getD]
  cases hget : control.requests[i]? with
  | none => exact ControlRequest.consistent_initial
  | some c' => exact h c' (List.mem_of_getElem? hget)

theorem Inv.modifyRequest {s : StateMachine} (h : s.Inv) (controlIndex requestIndex : Nat)
    {f : ControlRequest → ControlRequest}
    (hf : ∀ control c, s.controlEndpoints[controlIndex]? = some control →
      control.requests[requestIndex]? = some c → c.Consistent → (f c).Consistent) :
    (s.modifyRequest controlIndex requestIndex f).Inv := by
  intro control hcontrol c hc
  obtain ⟨i, hi⟩ := List.mem_iff_getElem?.mp hcontrol
  obtain ⟨j, hj⟩ := List.mem_iff_getElem?.mp hc
  simp only [StateMachine.modifyRequest, List.getElem?_modify] at hi
  obtain ⟨before, hbefore, rfl⟩ := Option.map_eq_some_iff.mp hi
  have hmem := List.mem_of_getElem? hbefore
  by_cases hindex : controlIndex = i
  · subst hindex
    rw [if_pos rfl] at hj
    simp only [ControlEndpoint.modifyRequest, List.getElem?_modify] at hj
    obtain ⟨c', hc', rfl⟩ := Option.map_eq_some_iff.mp hj
    have hconsistent := h before hmem c' (List.mem_of_getElem? hc')
    by_cases hrequest : requestIndex = j
    · subst hrequest
      rw [if_pos rfl]
      exact hf before c' hbefore hc' hconsistent
    · rw [if_neg hrequest]
      exact hconsistent
  · rw [if_neg hindex] at hj
    exact h before hmem c (List.mem_of_getElem? hj)

/-- No 200 reply comes for an Add request that a LAN change has overtaken. -/
def NotOvertaken (s : StateMachine) : Event → Prop
  | .reply controlIndex requestIndex reply _ => ∀ control c,
    s.controlEndpoints[controlIndex]? = some control →
      control.requests[requestIndex]? = some c → c.NotOvertaken reply
  | _ => True

theorem Inv.next {s : StateMachine} (h : s.Inv) {event : Event} (hevent : s.NotOvertaken event) :
    (s.next event).Inv := by
  cases event with
  | apiRequest request => exact h
  | tick env =>
    intro control hcontrol
    obtain ⟨before, hbefore, rfl⟩ := List.mem_map.mp hcontrol
    split
    · exact beginControlSOAPRequests_consistent (h before hbefore) _ env
    · exact h before hbefore
  | xmlResponse controlIndex env =>
    have hendpoints : ∀ control ∈ (if controlIndex < s.controlEndpoints.length then
        s.controlEndpoints else s.controlEndpoints ++ [⟨[], true⟩]), ∀ c ∈ control.requests,
        c.Consistent := by
      intro control hcontrol
      split at hcontrol
      · exact h control hcontrol
      · rcases List.mem_append.mp hcontrol with hold | hnew
        · exact h control hold
        · rw [List.mem_singleton] at hnew
          subst hnew
          exact nofun
    intro control hcontrol
    obtain ⟨i, hi⟩ := List.mem_iff_getElem?.mp hcontrol
    simp only [StateMachine.next, onXMLResponse, List.getElem?_modify] at hi
    obtain ⟨before, hbefore, rfl⟩ := Option.map_eq_some_iff.mp hi
    have hconsistent := hendpoints before (List.mem_of_getElem? hbefore)
    split
    · exact beginControlSOAPRequests_consistent hconsistent _ env
    · exact hconsistent
  | reply controlIndex requestIndex reply nowUsec =>
    exact h.modifyRequest controlIndex requestIndex fun control c hcontrol hc hconsistent =>
      hconsistent.reply nowUsec (hevent control c hcontrol hc)
  | asyncRefs controlIndex requestIndex asyncRefs =>
    exact h.modifyRequest controlIndex requestIndex fun _ _ _ _ hconsistent =>
      hconsistent.setAsyncRefs asyncRefs
  | lanChange =>
    intro control hcontrol c hc
    obtain ⟨before, hbefore, rfl⟩ := List.mem_map.mp hcontrol
    obtain ⟨c', hc', rfl⟩ := List.mem_map.mp hc
    exact (h before hbefore c' hc').onLANChange

/-- What a 200 reply has left different from what the application wants is asked for when the requests
of the endpoint are begun the next time, if the network is up. A tick begins them with the requests of
the application, a response of the gateway with the copy that the last tick has made. -/
def Converges (s : StateMachine) : Prop :=
  ∀ control ∈ s.controlEndpoints, ∀ requests ∈ [s.apiRequests, s.requests],
    ∀ (requestIndex : Nat) (c : ControlRequest) (app : AppRequest),
    control.requests[requestIndex]? = some c → requests[requestIndex]? = some app →
    c.answered = true → c.Idle → c.Differs app.type →
    ∀ env : BeginEnv, env.networkDown = false → env.started requestIndex = true →
      ∃ d, (control.beginControlSOAPRequests requests env).requests[requestIndex]? = some d ∧
        d.Issued app

theorem Inv.converges {s : StateMachine} (h : s.Inv) : s.Converges := by
  intro control hcontrol requests _ requestIndex c app hc happ hanswered hidle hdiffers env hup hstarted
  have hconsistent := h control hcontrol c (List.mem_of_getElem? hc)
  have hgone : { c with requester := none }.Consistent := ⟨nofun, hconsistent.settled⟩
  refine ⟨c.beginRequest app env requestIndex, ?_, ?_⟩
  · simp only [ControlEndpoint.beginControlSOAPRequests, List.getElem?_mapIdx, happ,
      Option.map_some, List.getD_eq_getElem?_getD, hc, Option.getD_some]
  · rw [hidle.beginRequest]
    exact hgone.issued hanswered hdiffers hup hstarted

/-- Whatever the application, the timer, the LAN and the gateways do: as long as a LAN change does not
overtake an Add request that is answered with 200 afterwards, the mappings come to what is wanted. -/
theorem mappings_converge {events : List Event} {s : StateMachine}
    (hrun : Run (Restrict NotOvertaken Step) initial events s) : s.Converges := by
  refine Inv.converges (hrun.invariant inv_initial fun t event u ht hstep => ?_)
  obtain ⟨hevent, rfl⟩ := hstep
  exact ht.next hevent

def noneOvertaken (s : StateMachine) : Bool :=
  s.controlEndpoints.all fun control => control.requests.all fun c => c.requester.all (!·.overtaken)

theorem notOvertaken_of_none {s : StateMachine} (h : s.noneOvertaken = true) (event : Event) :
    s.NotOvertaken event := by
  cases event with
  | reply controlIndex requestIndex reply nowUsec =>
    intro control c hcontrol hc _ q hq _ _
    have hrequests := List.all_eq_true.mp h control (List.mem_of_getElem? hcontrol)
    have hrequester := List.all_eq_true.mp hrequests c (List.mem_of_getElem? hc)
    rw [hq] at hrequester
    exact Bool.not_eq_true' _ ▸ hrequester
  | _ => trivial

def quiet : StateMachine → List Event → Bool
  | _, [] => true
  | s, event :: events => s.noneOvertaken && (s.next event).quiet events

theorem run_of_quiet {s : StateMachine} {events : List Event} (h : s.quiet events = true) :
    Run (Restrict NotOvertaken Step) s events (events.foldl next s) := by
  induction events generalizing s with
  | nil => exact .nil s
  | cons event events ih =>
    rw [quiet, Bool.and_eq_true] at h
    exact .cons ⟨notOvertaken_of_none h.1 event, rfl⟩ (ih h.2)

def online : BeginEnv := ⟨1, false, fun _ => true, fun _ => 0⟩
def offline : BeginEnv := ⟨2, true, fun _ => true, fun _ => 0⟩

def mappedEvents : List Event :=
  [.apiRequest ⟨.add, 5000, by decide⟩, .xmlResponse 0 online, .tick online,
    .reply 0 0 (.response 200) 2, .asyncRefs 0 0 0]

/-- The application does not want the port any more while the network is down. -/
def unwantedEvents : List Event :=
  mappedEvents ++ [.apiRequest ⟨.remove, 5000, by decide⟩, .tick offline]

theorem mappings_converge_unwanted : (unwantedEvents.foldl next initial).Converges ∧
    (unwantedEvents.foldl next initial).controlEndpoints.all (fun control =>
      control.requests.all fun c => c.answered && c.addedExternalPort = 5000) = true :=
  ⟨mappings_converge (run_of_quiet (by decide +kernel)), by decide +kernel⟩

def overtakenEvents : List Event :=
  [.apiRequest ⟨.add, 5000, by decide⟩, .xmlResponse 0 online, .tick online, .lanChange,
    .apiRequest ⟨.remove, 5000, by decide⟩, .tick online, .reply 0 0 (.response 200) 2,
    .asyncRefs 0 0 0]

theorem run_next (s : StateMachine) (events : List Event) :
    Run Step s events (events.foldl next s) := by
  induction events generalizing s with
  | nil => exact .nil s
  | cons event events ih => exact .cons rfl (ih (s.next event))

/-- The port stays open. -/
theorem mapping_not_removed : ¬∀ (events : List Event) (s : StateMachine),
    Run Step initial events s → s.Converges := by
  intro h
  have hconverges := h overtakenEvents _ (run_next initial overtakenEvents)
  let s := overtakenEvents.foldl next initial
  let control := s.controlEndpoints.getD 0 ⟨[], true⟩
  let c := control.requests.getD 0 .initial
  let app : AppRequest := ⟨.remove, 5000, by decide⟩
  have hcontrol : control ∈ s.controlEndpoints := List.mem_of_getElem? (i := 0) rfl
  have hidle : c.Idle := by
    intro q hq
    cases hq
    exact ⟨rfl, rfl⟩
  have hdiffers : c.Differs app.type := .inl ⟨by decide +kernel, rfl⟩
  obtain ⟨d, hd, q, hq, -, hlive⟩ :=
    hconverges control hcontrol s.apiRequests List.mem_cons_self 0 c app rfl rfl rfl hidle hdiffers
      online rfl rfl
  cases hd
  cases hq

end StateMachine
end Tonk.Gateway
