import RankExchange.Proofs.TransportCalls
import RankExchange.Proofs.Refusals

/-!
# Confined programs

Which calls a program can make at all, on its main thread and on its helper thread,
and whether it leaves a helper thread behind.  A service calls its transport on its
own tag only, and only if the endpoint has the tag; it awaits every helper thread
that it has started.
-/

namespace RankExchange

def Request.tag? : Request → Option Tag
  | .send _ tag _ => some tag
  | .probe tag => some tag
  | .receive _ tag _ => some tag
  | _ => none

namespace Action

/-- Every call of an action is good; `aided` is whether there is a helper thread, of
which there is one at a time. -/
def Fits (good : Request → Prop) (aided : Bool) : Action → Prop
  | .call request => good request
  | .log _ => True
  | .reserve _ => True
  | .spawn posts => aided = false ∧ ∀ post ∈ posts, good post.request
  | .join => aided = true

def aids (aided : Bool) : Action → Bool
  | .spawn _ => true
  | .join => false
  | _ => aided

theorem Fits.mono {good good' : Request → Prop} {aided : Bool} {action : Action}
    (h : action.Fits good aided) (hgood : ∀ request, good request → good' request) :
    action.Fits good' aided := by
  cases action with
  | call request => exact hgood request h
  | log => trivial
  | reserve => trivial
  | spawn posts => exact ⟨h.1, fun post hpost => hgood _ (h.2 post hpost)⟩
  | join => exact h

end Action

theorem Helper.Sends.good {helper last : Helper} {calls : List Call} {good : Request → Prop}
    (h : helper.Sends calls last) (hposts : ∀ post ∈ helper.posts, good post.request) :
    (∀ call ∈ calls, good call.request) ∧ ∀ post ∈ last.posts, good post.request := by
  induction h with
  | refl => exact ⟨by simp, hposts⟩
  | sent _ ih =>
      obtain ⟨hpost, hposts⟩ := List.forall_mem_cons.1 hposts
      obtain ⟨hcalls, hlast⟩ := ih hposts
      exact ⟨List.forall_mem_cons.2 ⟨hpost, hcalls⟩, hlast⟩
  | failed fault _ ih =>
      obtain ⟨hcalls, hlast⟩ := ih (by simp)
      exact ⟨List.forall_mem_cons.2 ⟨(List.forall_mem_cons.1 hposts).1, hcalls⟩, hlast⟩

namespace Program

variable {α β : Type} {good : Request → Prop} {aided : Bool}

/-- All calls are good, and the end is as it is wanted. -/
def Confined (good : Request → Prop) (wanted : Bool → Except Fault α → Prop) :
    Bool → Program α → Prop
  | aided, .done result => wanted aided result
  | aided, .act action next =>
      action.Fits good aided ∧ ∀ answer, (next answer).Confined good wanted (action.aids aided)

namespace Confined

variable {program : Program α} {middle : Bool → Except Fault α → Prop}

theorem bind {f : α → Program β} {wanted : Bool → Except Fault β → Prop}
    (h : program.Confined good middle aided)
    (hok : ∀ aided value, middle aided (.ok value) → (f value).Confined good wanted aided)
    (herror : ∀ aided fault, middle aided (.error fault) → wanted aided (.error fault)) :
    (program.bind f).Confined good wanted aided := by
  induction program generalizing aided with
  | done result =>
      cases result with
      | ok value => exact hok aided value h
      | error fault => exact herror aided fault h
  | act action next ih => exact ⟨h.1, fun answer => ih answer (h.2 answer)⟩

/-- What is done after an attempt sees a fault like any other outcome. -/
theorem attempt_bind {f : Except Fault α → Program β} {wanted : Bool → Except Fault β → Prop}
    (h : program.Confined good middle aided)
    (hnext : ∀ aided outcome, middle aided outcome → (f outcome).Confined good wanted aided) :
    (program.attempt.bind f).Confined good wanted aided := by
  induction program generalizing aided with
  | done result => exact hnext aided result h
  | act action next ih => exact ⟨h.1, fun answer => ih answer (h.2 answer)⟩

theorem mono {good' : Request → Prop} {wanted : Bool → Except Fault α → Prop}
    (h : program.Confined good middle aided) (hgood : ∀ request, good request → good' request)
    (hwanted : ∀ aided result, middle aided result → wanted aided result) :
    program.Confined good' wanted aided := by
  induction program generalizing aided with
  | done result => exact hwanted aided result h
  | act action next ih => exact ⟨h.1.mono hgood, fun answer => ih answer (h.2 answer)⟩

/-- Whatever its transport answers, a confined program makes good calls only, and awaits
its helper thread if it says so. -/
theorem converses {wanted : Bool → Except Fault α → Prop} {helper last : Helper}
    {calls : List Call} {result : Except Fault α} (h : program.Confined good wanted aided)
    (hconverses : program.Converses helper calls result last)
    (hposts : ∀ post ∈ helper.posts, good post.request) (hidle : aided = false → helper = {}) :
    (∀ call ∈ calls, good call.request) ∧
      ∃ aided', wanted aided' result ∧ (aided' = false → last = {}) := by
  induction hconverses generalizing aided with
  | done hsends =>
      refine ⟨(hsends.good hposts).1, aided, h, fun haided => ?_⟩
      have hhelper := hidle haided
      rw [hhelper] at hsends
      exact (hsends.of_idle rfl).2
  | @act action next answer helper before after last sent own rest result hsends hserves _ ih =>
      obtain ⟨hsent, hbefore⟩ := hsends.good hposts
      have hidle' : aided = false → before = {} := by
        intro haided
        have hhelper := hidle haided
        rw [hhelper] at hsends
        exact (hsends.of_idle rfl).2
      have hafter : (∀ call ∈ own, good call.request) ∧ (∀ post ∈ after.posts, good post.request) ∧
          (action.aids aided = false → after = {}) := by
        cases hserves with
        | call => exact ⟨List.forall_mem_singleton.2 h.1, hbefore, hidle'⟩
        | log => exact ⟨by simp, hbefore, hidle'⟩
        | reserve => exact ⟨by simp, hbefore, hidle'⟩
        | spawn => exact ⟨by simp, h.1.2, fun haided => by cases haided⟩
        | join => exact ⟨by simp, by simp, fun _ => rfl⟩
      obtain ⟨hown, hposts', hidle''⟩ := hafter
      obtain ⟨hrest, hend⟩ := ih (h.2 answer) hposts' hidle''
      refine ⟨fun call hcall => ?_, hend⟩
      rcases List.mem_append.1 hcall with hcall | hcall
      · rcases List.mem_append.1 hcall with hcall | hcall
        · exact hsent call hcall
        · exact hown call hcall
      · exact hrest call hcall

end Confined

/-- All calls are on one tag, and there is a helper thread afterwards just if there was
one before. -/
def KeepsTo (tag : Tag) (aided : Bool) (program : Program α) : Prop :=
  program.Confined (fun request => request.tag? = some tag) (fun aided' _ => aided' = aided) aided

section

variable {tag : Tag} {program : Program α}

theorem KeepsTo.bind {f : α → Program β} (h : program.KeepsTo tag aided)
    (hnext : ∀ value, (f value).KeepsTo tag aided) : (program.bind f).KeepsTo tag aided := by
  refine Confined.bind h (fun aided' value haided => ?_) (fun _ _ haided => haided)
  rw [haided]
  exact hnext value

theorem keepsTo_done (result : Except Fault α) : (done result).KeepsTo tag aided :=
  rfl

theorem keepsTo_lift (outcome : Except Fault α) :
    KeepsTo tag aided (liftM outcome : Program α) :=
  rfl

theorem keepsTo_log (event : Event) : (log event).KeepsTo tag aided :=
  ⟨trivial, fun _ => rfl⟩

end

end Program

namespace Endpoint

open Program

variable {α : Type} {aided : Bool}

theorem keepsTo_dispatch (envelope : Envelope) : (dispatch envelope).KeepsTo envelope.tag aided :=
  (keepsTo_log _).bind (fun _ => ⟨rfl, fun _ => rfl⟩)

/-- What is done after a probe may count on the tag of the message. -/
theorem keepsTo_probe (endpoint : Endpoint) (tag : Tag) {f : Arrival → Program α}
    (h : ∀ arrival, arrival.tag = tag → (f arrival).KeepsTo tag aided) :
    ((endpoint.probe tag).bind f).KeepsTo tag aided := by
  refine ⟨rfl, fun answer => ?_⟩
  cases answer with
  | error fault => rfl
  | ok arrival =>
      refine ⟨trivial, fun _ => ?_⟩
      change KeepsTo tag aided (Program.bind (if _ then _ else _) f)
      split
      · next hkept => exact h arrival hkept.1
      · rfl

theorem keepsTo_accept {arrival : Arrival} {tag : Tag} (htag : arrival.tag = tag) :
    (accept arrival).KeepsTo tag aided := by
  refine ⟨trivial, fun answer => ?_⟩
  cases answer with
  | error fault => rfl
  | ok _ =>
      refine ⟨congrArg some htag, fun answer => ?_⟩
      cases answer with
      | error fault => rfl
      | ok buffer => exact ⟨trivial, fun _ => rfl⟩

theorem keepsTo_send (endpoint : Endpoint) (peer : Nat) (tag : Tag) (payload : Bytes) :
    (endpoint.send peer tag payload).KeepsTo tag aided := by
  refine (keepsTo_lift _).bind (fun _ => ?_)
  refine (keepsTo_lift _).bind (fun _ => ?_)
  exact keepsTo_dispatch ⟨peer, tag, payload⟩

theorem keepsTo_receive (endpoint : Endpoint) (peer : Nat) (tag : Tag) :
    (endpoint.receive peer tag).KeepsTo tag aided := by
  refine (keepsTo_lift _).bind (fun _ => ?_)
  refine (keepsTo_lift _).bind (fun _ => ?_)
  refine keepsTo_probe endpoint tag (fun arrival htag => ?_)
  split
  · exact keepsTo_accept htag
  · exact keepsTo_done _

theorem keepsTo_receiveNext (endpoint : Endpoint) (tag : Tag) :
    (endpoint.receiveNext tag).KeepsTo tag aided := by
  refine (keepsTo_lift _).bind (fun _ => ?_)
  exact keepsTo_probe endpoint tag (fun arrival htag => keepsTo_accept htag)

theorem keepsTo_receiveOwed (endpoint : Endpoint) (count : Nat) :
    ∀ round received, (endpoint.receiveOwed count round received).KeepsTo round.tag aided := by
  induction count with
  | zero => exact fun _ _ => rfl
  | succ count ih =>
      intro round received
      refine keepsTo_probe endpoint round.tag (fun arrival htag => ?_)
      cases hsettle : round.settle arrival.source with
      | error fault => rfl
      | ok rest =>
          have hrest : rest.tag = round.tag := by
            unfold Round.settle at hsettle
            split at hsettle
            · cases hsettle
              rfl
            · cases hsettle
          refine (keepsTo_accept htag).bind (fun envelope => ?_)
          rw [← hrest]
          exact ih rest _

theorem keepsTo_exchangeInTurn (endpoint : Endpoint) (round : Round) {posts : List Envelope}
    (hposts : ∀ post ∈ posts, post.tag = round.tag) :
    (endpoint.exchangeInTurn round posts).KeepsTo round.tag aided := by
  refine KeepsTo.bind ?_ (fun _ => keepsTo_receiveOwed endpoint _ round .empty)
  induction posts with
  | nil => rfl
  | cons post posts ih =>
      refine KeepsTo.bind ?_ (fun _ => ih (fun other hother =>
        hposts other (List.mem_cons_of_mem _ hother)))
      rw [← hposts post List.mem_cons_self]
      exact keepsTo_dispatch post

/-- The helper thread of a round has come to an end with it. -/
theorem keepsTo_exchangeBeside (endpoint : Endpoint) (round : Round) {posts : List Envelope}
    (hposts : ∀ post ∈ posts, post.tag = round.tag) :
    (endpoint.exchangeBeside round posts).KeepsTo round.tag false := by
  refine ⟨⟨rfl, fun post hpost => congrArg some (hposts post hpost)⟩, fun _ => ?_⟩
  have hreceived : (endpoint.receiveAll round).KeepsTo round.tag true :=
    keepsTo_receiveOwed endpoint _ round .empty
  change Confined _ _ true (Program.bind (endpoint.receiveAll round).attempt _)
  refine Confined.attempt_bind hreceived (fun aided received haided => ?_)
  rw [haided]
  exact ⟨rfl, fun sent => rfl⟩

theorem keepsTo_exchange (endpoint : Endpoint) (peers : RankSet) (tag : Tag)
    (outgoing : RankMap Bytes) : (endpoint.exchange peers tag outgoing).KeepsTo tag false := by
  refine (keepsTo_lift _).bind (fun _ => ?_)
  refine (keepsTo_lift _).bind (fun _ => ?_)
  refine (keepsTo_lift _).bind (fun standing => ?_)
  have hposts : ∀ post ∈ outgoing.entries.map (fun entry => Envelope.mk entry.1 tag entry.2),
      post.tag = tag := by
    intro post hpost
    obtain ⟨_, _, rfl⟩ := List.mem_map.1 hpost
    rfl
  have hlog : ∀ received : RankMap Envelope, KeepsTo tag false (do
      log (.roundComplete tag received.size)
      pure received) :=
    fun received => (keepsTo_log _).bind (fun _ => keepsTo_done _)
  dsimp only
  split
  · exact (keepsTo_exchangeBeside endpoint ⟨tag, peers⟩ hposts).bind hlog
  · exact (keepsTo_exchangeInTurn endpoint ⟨tag, peers⟩ hposts).bind hlog

theorem keepsTo_broadcast (endpoint : Endpoint) (root : Nat) (tag : Tag) (payload : Bytes) :
    (endpoint.broadcast root tag payload).KeepsTo tag false := by
  refine (keepsTo_lift _).bind (fun _ => ?_)
  refine (keepsTo_lift _).bind (fun standing => ?_)
  split
  · refine (keepsTo_lift _).bind (fun others => ?_)
    exact (keepsTo_exchange _ _ _ _).bind (fun _ => rfl)
  · exact (keepsTo_receive _ _ _).bind (fun _ => rfl)

theorem keepsTo_gather (endpoint : Endpoint) (root : Nat) (tag : Tag) (payload : Bytes) :
    (endpoint.gather root tag payload).KeepsTo tag false := by
  refine (keepsTo_lift _).bind (fun _ => ?_)
  refine (keepsTo_lift _).bind (fun standing => ?_)
  split
  · refine (keepsTo_lift _).bind (fun others => ?_)
    exact (keepsTo_exchange _ _ _ _).bind (fun _ => rfl)
  · exact (keepsTo_exchange _ _ _ _).bind (fun _ => rfl)

theorem keepsTo_reduce (endpoint : Endpoint) (root : Nat) (tag : Tag) (coder : Coder α)
    (value : α) (fold : α → α → α) :
    (endpoint.reduce root tag coder value fold).KeepsTo tag false := by
  refine (keepsTo_lift _).bind (fun payload => ?_)
  exact (keepsTo_gather _ _ _ _).bind (fun gathered => keepsTo_lift _)

theorem keepsTo_allReduce (endpoint : Endpoint) (tag : Tag) (coder : Coder α) (value : α)
    (fold : α → α → α) : (endpoint.allReduce tag coder value fold).KeepsTo tag false := by
  refine (keepsTo_reduce _ _ _ _ _ _).bind (fun reduced => ?_)
  refine (keepsTo_lift _).bind (fun payload => ?_)
  exact (keepsTo_broadcast _ _ _ _).bind (fun shared => keepsTo_lift _)

variable {Kind : Type} {Value : Kind → Type}

theorem keepsTo_provide (endpoint : Endpoint) (service : Service Value) :
    (endpoint.provide service).KeepsTo service.tag false := by
  cases service with
  | send peer tag payload => exact keepsTo_send endpoint peer tag payload
  | sendValue kind peer tag coder value =>
      refine (keepsTo_lift _).bind (fun _ => ?_)
      refine (keepsTo_lift _).bind (fun payload => ?_)
      exact keepsTo_send endpoint peer tag payload
  | receive peer tag => exact keepsTo_receive endpoint peer tag
  | receiveNext tag => exact keepsTo_receiveNext endpoint tag
  | exchange peers tag outgoing => exact keepsTo_exchange endpoint peers tag outgoing
  | broadcast root tag payload => exact keepsTo_broadcast endpoint root tag payload
  | gather root tag payload => exact keepsTo_gather endpoint root tag payload
  | reduce kind root tag coder value fold =>
      exact keepsTo_reduce endpoint root tag coder value fold
  | allReduce kind tag coder value fold => exact keepsTo_allReduce endpoint tag coder value fold

end Endpoint

namespace Command

open Program

variable {Kind : Type} {Value : Kind → Type}

def Uses : Command Value → Request → Prop
  | .serve tags service, request =>
      request.tag? = some service.tag ∧ tags.contains service.tag = true
  | _, request => request.tag? = none ∧ request ≠ .leave

theorem confined_serve (session : Session) (tags : TagSpace) (service : Service Value) :
    ((Command.serve tags service).run session).Confined (Command.serve tags service).Uses
      (fun aided result => aided = false ∧ ∃ outcome, result = .ok (outcome, session)) false := by
  let endpoint : Endpoint := ⟨session, tags⟩
  have hprovide : (endpoint.provide service).Confined (Command.serve tags service).Uses
      (fun aided _ => aided = false) false := by
    cases htag : tags.contains service.tag with
    | true =>
        exact (endpoint.keepsTo_provide service).mono
          (fun request hrequest => ⟨hrequest, htag⟩) (fun _ _ haided => haided)
    | false =>
        have houtside : endpoint.tags.contains service.tag = false := htag
        obtain ⟨fault, hraise⟩ := Endpoint.raises_of_outside_tag houtside
        rw [hraise]
        rfl
  exact Confined.attempt_bind hprovide (fun aided outcome haided => ⟨haided, outcome, rfl⟩)

theorem confined_run (session : Session) (command : Command Value) :
    (command.run session).Confined command.Uses
      (fun aided result => aided = false ∧ ∃ reply, result = .ok reply) false := by
  cases command with
  | establish =>
      simp only [run, Session.establish]
      split
      · exact ⟨rfl, _, rfl⟩
      · exact ⟨rfl, _, rfl⟩
      · refine ⟨⟨rfl, by simp⟩, fun answer => ?_⟩
        cases answer with
        | error fault => exact ⟨rfl, _, rfl⟩
        | ok granted =>
            simp only [attempt_done, bind_eq, bind_done_ok]
            split
            · refine ⟨trivial, fun _ => ⟨⟨rfl, by simp⟩, fun answer => ?_⟩⟩
              cases answer with
              | error fault => exact ⟨trivial, fun _ => ⟨rfl, _, rfl⟩⟩
              | ok _ => exact ⟨rfl, _, rfl⟩
            · exact ⟨⟨rfl, by simp⟩, fun identity => ⟨trivial, fun _ => ⟨rfl, _, rfl⟩⟩⟩
  | close =>
      simp only [run, Session.close]
      split
      · refine ⟨⟨rfl, by simp⟩, fun answer => ?_⟩
        cases answer with
        | error fault => exact ⟨rfl, _, rfl⟩
        | ok _ => exact ⟨trivial, fun _ => ⟨rfl, _, rfl⟩⟩
      · exact ⟨rfl, _, rfl⟩
  | synchronize =>
      cases hstanding : session.standing with
      | error fault =>
          simp only [run, Session.synchronize, hstanding]
          exact ⟨rfl, _, rfl⟩
      | ok standing =>
          simp only [run, Session.synchronize, hstanding]
          exact ⟨trivial, fun _ => ⟨⟨rfl, by simp⟩, fun answer => ⟨rfl, _, rfl⟩⟩⟩
  | inspect => exact ⟨rfl, _, rfl⟩
  | serve tags service =>
      exact (confined_serve session tags service).mono (fun _ hrequest => hrequest)
        (fun aided result ⟨haided, outcome, houtcome⟩ => ⟨haided, _, houtcome⟩)

end Command

end RankExchange
