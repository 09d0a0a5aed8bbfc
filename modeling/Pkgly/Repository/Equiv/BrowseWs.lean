import Pkgly.Repository.BrowseWs

/-!
# The protocol of the browse websocket

`Phase` is what the messages sent so far tell the client: no directory is open, one is open with some
of its files yet to come, or its end has been announced.  `protocolOk` is the main theorem: on every
connection on which no directory fails to open, no directory has a hidden entry, and no change of the
tables takes the access away (`Orderly`), every message fits the phase before it, and items and
directories are shown only under an authentication that may read the repository.

The invariant (`Tracks`) ties the phase to the stream of the connection: the files yet to come are
those the stream still yields.
-/

namespace Pkgly.Browse

/-! ### What is asked of the messages -/

/-- What a client knows from the messages so far. -/
inductive Phase
  /-- No directory is open, or the last one could not be opened. -/
  | idle
  /-- A directory is open, and these are the files yet to come. -/
  | listing (rest : List BrowseFile)
  | ended
deriving DecidableEq

/-- The phase after a message; `none` if the message is out of place. -/
def Phase.next (phase : Phase) (sent : Sent) : Option Phase :=
  match sent.message with
  | .openedDirectory _ => some (.listing sent.files)
  | .directoryItem file =>
    match phase with
    | .listing rest => if file ∈ rest then some (.listing (rest.erase file)) else none
    | _ => none
  | .endOfDirectory =>
    match phase with
    | .listing _ => some .ended
    | _ => none
  | .error _ => if sent.ofListDirectory then some .idle else some phase
  | .unauthorized => some phase
  | .authorized => some phase

/-- The phase after all messages, of which the latest comes first. -/
def phaseAfter : List Sent → Option Phase
  | [] => some .idle
  | sent :: before => (phaseAfter before).bind fun phase => phase.next sent

def WebsocketOutgoingMessage.shows : WebsocketOutgoingMessage → Bool
  | .directoryItem _ | .openedDirectory _ => true
  | _ => false

/-- The stages at which an authorized connection may read. -/
def Stage.isSettled : Stage → Bool
  | .checkingLogin | .closed => false
  | _ => true

def DirectoryStream.hasHidden (stream : DirectoryStream) : Bool :=
  stream.items.any fun
    | .ok none => true
    | _ => false

namespace BrowseSystem

variable {repository : BrowsedRepository} {s s' : BrowseSystem} {a : BrowseAction}

def ProtocolOk (s : BrowseSystem) : Prop :=
  (phaseAfter s.sent).isSome = true ∧
    ∀ sent ∈ s.sent, sent.message.shows = true → sent.allowed = true

def isClosed (s : BrowseSystem) : Bool :=
  match s.stage with
  | .closed => true
  | _ => false

/-- The connection has been given access, and no new authentication is being checked. -/
def holdsAccess (s : BrowseSystem) : Bool :=
  decide (s.accessStatus = .authorized) && s.stage.isSettled

/-- The condition on a step: no directory fails to open or lists a hidden entry, and a change of
access neither takes it away from the connection nor turns on a setting that the connection has
loaded as off. -/
def Orderly (repository : BrowsedRepository) (s : BrowseSystem) : BrowseAction → Prop
  | .resolve (.error _) => False
  | .streamDirectory (.error _) => False
  | .streamDirectory (.ok (some stream)) => stream.hasHidden = false
  | .changeAccess access => s.isClosed = false →
    (access.authConfig.enabled = true → s.authConfig.enabled = true) ∧
      (s.holdsAccess = true →
        canReadRepositoryWithAuth access repository.id s.authentication access.authConfig = true)
  | _ => True

instance : ∀ a, Decidable (Orderly repository s a)
  | .resolve (.error _) => isFalse id
  | .streamDirectory (.error _) => isFalse id
  | .streamDirectory (.ok (some stream)) => inferInstanceAs (Decidable (stream.hasHidden = false))
  | .changeAccess access => inferInstanceAs (Decidable (s.isClosed = false →
    (access.authConfig.enabled = true → s.authConfig.enabled = true) ∧
      (s.holdsAccess = true → canReadRepositoryWithAuth access repository.id s.authentication
        access.authConfig = true)))
  | .resolve (.ok _) | .streamDirectory (.ok none) | .connect _ _ | .receive _ | .nextItem
  | .check _ | .resolveProject _ | .login _ | .checkLogin _ | .send _ => isTrue trivial

/-! ### The invariant -/

/-- Between two messages: either nothing is to come, or the files the client waits for are those of
the stream. -/
def Rest (s : BrowseSystem) (phase : Phase) : Prop :=
  s.activePath.current.items = [] ∧ s.activePath.sentEndOfDirectory = true ∨
    s.accessStatus = .authorized ∧ s.activePath.current.hasHidden = false ∧
      phase = .listing s.activePath.current.files

/-- How the stream and the message at hand fit the phase. -/
def Tracks (s : BrowseSystem) (phase : Phase) : Prop :=
  match s.stage with
  | .closed => True
  | .resolving | .opening _ => s.accessStatus = .authorized
  | .resolvingProject | .sending (.openedDirectory _) _ _ =>
    s.accessStatus = .authorized ∧ s.activePath.current.hasHidden = false
  | .sending (.directoryItem file) _ _ =>
    s.accessStatus = .authorized ∧ s.activePath.current.hasHidden = false ∧
      phase = .listing (file :: s.activePath.current.files)
  | .sending .endOfDirectory _ _ =>
    (∃ rest, phase = .listing rest) ∧ s.activePath.current.items = [] ∧
      s.activePath.sentEndOfDirectory = true
  | .sending _ _ true => True
  | .sending _ ofListDirectory false => ofListDirectory = false ∧ s.Rest phase
  | .connecting | .waiting | .checking _ | .loggingIn _ | .checkingLogin => s.Rest phase

structure Consistent (repository : BrowsedRepository) (s : BrowseSystem) : Prop where
  phase : ∃ phase, phaseAfter s.sent = some phase ∧ s.Tracks phase
  allowed : ∀ sent ∈ s.sent, sent.message.shows = true → sent.allowed = true
  access : s.holdsAccess = true → s.isAllowed repository = true
  config : s.isClosed = false → s.access.authConfig.enabled = true → s.authConfig.enabled = true

theorem isAllowed_of_canRead
    (hconfig : s.access.authConfig.enabled = true → s.authConfig.enabled = true)
    (h : s.canRead repository = true) : s.isAllowed repository = true := by
  unfold canRead isAllowed canReadRepositoryWithAuth at *
  grind

theorem hasHidden_tail {item : Except String (Option BrowseFile)}
    {items : List (Except String (Option BrowseFile))} {n : Nat}
    (h : (DirectoryStream.mk (item :: items) n).hasHidden = false) :
    item ≠ .ok none ∧ (DirectoryStream.mk items n).hasHidden = false := by
  unfold DirectoryStream.hasHidden at h ⊢
  rw [List.any_cons, Bool.or_eq_false_iff] at h
  refine ⟨?_, h.2⟩
  rintro rfl
  cases h.1

/-! ### Steps -/

theorem holdsAccess_iff :
    s.holdsAccess = true ↔ s.accessStatus = .authorized ∧ s.stage.isSettled = true := by
  rw [holdsAccess, Bool.and_eq_true, decide_eq_true_iff]

theorem isClosed_of_isSettled (h : s.stage.isSettled = true) : s.isClosed = false := by
  unfold isClosed
  cases hstage : s.stage with
  | closed => rw [hstage] at h; cases h
  | _ => rfl

/-- A step that sends nothing keeps the invariant, if the new stage fits the phase and an authorized
connection may read. -/
theorem Consistent.advance {t : BrowseSystem} (hs : s.Consistent repository)
    (hopen : s.isClosed = false) (hsent : t.sent = s.sent) (haccess : t.access = s.access)
    (hconfig : t.authConfig = s.authConfig) (htracks : ∀ phase, s.Tracks phase → t.Tracks phase)
    (hheld : t.accessStatus = .authorized → t.stage.isSettled = true →
      t.isAllowed repository = true) : t.Consistent repository := by
  obtain ⟨phase, hphase, hfits⟩ := hs.phase
  refine ⟨⟨phase, hsent ▸ hphase, htracks phase hfits⟩, hsent ▸ hs.allowed, fun h => ?_,
    fun _ hon => ?_⟩
  · obtain ⟨hstatus, hsettled⟩ := holdsAccess_iff.mp h
    exact hheld hstatus hsettled
  · rw [haccess] at hon
    rw [hconfig]
    exact hs.config hopen hon

theorem Consistent.proceed {t : BrowseSystem} (hs : s.Consistent repository)
    (hsettled : s.stage.isSettled = true) (hsent : t.sent = s.sent) (haccess : t.access = s.access)
    (hconfig : t.authConfig = s.authConfig) (hauth : t.authentication = s.authentication)
    (hstatus : t.accessStatus = s.accessStatus)
    (htracks : ∀ phase, s.Tracks phase → t.Tracks phase) : t.Consistent repository := by
  refine hs.advance (isClosed_of_isSettled hsettled) hsent haccess hconfig htracks fun h _ => ?_
  have hallowed := hs.access (holdsAccess_iff.mpr ⟨hstatus ▸ h, hsettled⟩)
  rw [isAllowed, haccess, hauth]
  exact hallowed

theorem Consistent.close (hs : s.Consistent repository) :
    ({ s with stage := .closed } : BrowseSystem).Consistent repository := by
  obtain ⟨phase, hphase, -⟩ := hs.phase
  refine ⟨⟨phase, hphase, trivial⟩, hs.allowed, fun h => ?_, fun h => ?_⟩
  · cases (holdsAccess_iff.mp h).2
  · cases h

theorem consistent_connect {ping loaded : Bool} (hs : s.Consistent repository)
    (h : s.stepConnect ping loaded = some s') : s'.Consistent repository := by
  unfold stepConnect at h
  split at h
  · rename_i hstage
    obtain ⟨phase, hphase, htracks⟩ := hs.phase
    rw [Tracks, hstage] at htracks
    have hallowed : s.accessStatus = .authorized → s.isAllowed repository = true := by
      intro hstatus
      exact hs.access (holdsAccess_iff.mpr ⟨hstatus, by rw [hstage]; rfl⟩)
    split at h
    · obtain rfl := Option.some.inj h
      exact hs.close
    · obtain rfl := Option.some.inj h
      refine ⟨⟨phase, hphase, htracks⟩, hs.allowed, fun hheld => ?_, fun _ hon => ?_⟩
      · exact hallowed (holdsAccess_iff.mp hheld).1
      · -- The stored setting was loaded, or the default takes its place.
        grind
  · cases h

theorem tracks_changeDirectory {path : StoragePath} {phase : Phase}
    (hstatus : s.accessStatus = .authorized) :
    (s.changeDirectory repository path).Tracks phase := by
  grind [Tracks, changeDirectory]

theorem consistent_receive {message : Incoming} (hs : s.Consistent repository)
    (h : s.stepReceive repository message = some s') : s'.Consistent repository := by
  unfold stepReceive at h
  split at h
  · rename_i hstage
    have hsettled : s.stage.isSettled = true := by rw [hstage]; rfl
    have hrest : ∀ phase, s.Tracks phase → s.Rest phase := by
      intro phase htracks
      rw [Tracks, hstage] at htracks
      exact htracks
    cases message with
    | endOfStream =>
      obtain rfl := Option.some.inj h
      exact hs.close
    | failed text =>
      obtain rfl := Option.some.inj h
      exact hs.proceed hsettled rfl rfl rfl rfl rfl fun _ _ => trivial
    | close =>
      obtain rfl := Option.some.inj h
      exact hs.close
    | pingPong =>
      obtain rfl := Option.some.inj h
      exact hs
    | unparsable text =>
      obtain rfl := Option.some.inj h
      exact hs.proceed hsettled rfl rfl rfl rfl rfl fun phase ht => ⟨rfl, hrest phase ht⟩
    | listDirectory path =>
      dsimp only at h
      split at h
      · obtain rfl := Option.some.inj h
        exact hs.proceed hsettled rfl rfl rfl rfl rfl hrest
      · rename_i hstatus
        obtain rfl := Option.some.inj h
        refine hs.proceed hsettled rfl rfl rfl rfl rfl fun phase _ => ?_
        exact tracks_changeDirectory (not_not.mp hstatus)
    | authentication message =>
      obtain rfl := Option.some.inj h
      exact hs.proceed hsettled rfl rfl rfl rfl rfl hrest
  · cases h

theorem consistent_nextItem (hs : s.Consistent repository) (h : s.stepNextItem = some s') :
    s'.Consistent repository := by
  unfold stepNextItem at h
  split at h
  · rename_i hstage
    have hsettled : s.stage.isSettled = true := by rw [hstage]; rfl
    have hrest : ∀ phase, s.Tracks phase → s.Rest phase := by
      intro phase htracks
      rw [Tracks, hstage] at htracks
      exact htracks
    split at h
    · rename_i item items hitems
      -- A stream with an item is that of the directory the client has open.
      have hopen : ∀ phase, s.Tracks phase → s.accessStatus = .authorized ∧
          s.activePath.current.hasHidden = false ∧ phase = .listing s.activePath.current.files := by
        intro phase htracks
        rcases hrest phase htracks with ⟨hnil, -⟩ | hopen
        · rw [hitems] at hnil
          cases hnil
        · exact hopen
      have hcurrent : s.activePath.current = ⟨item :: items, s.activePath.current.numberOfFiles⟩ := by
        rw [← hitems]
      dsimp only at h
      split at h
      · rename_i file
        obtain rfl := Option.some.inj h
        refine hs.proceed hsettled rfl rfl rfl rfl rfl fun phase htracks => ?_
        obtain ⟨hstatus, hhidden, hphase⟩ := hopen phase htracks
        rw [hcurrent] at hhidden hphase
        exact ⟨hstatus, (hasHidden_tail hhidden).2, hphase⟩
      · obtain rfl := Option.some.inj h
        refine hs.proceed hsettled rfl rfl rfl rfl rfl fun phase htracks => ?_
        obtain ⟨-, hhidden, -⟩ := hopen phase htracks
        rw [hcurrent] at hhidden
        exact absurd rfl (hasHidden_tail hhidden).1
      · obtain rfl := Option.some.inj h
        exact hs.proceed hsettled rfl rfl rfl rfl rfl fun _ _ => trivial
    · rename_i hnil
      split at h
      · cases h
      · rename_i hend
        obtain rfl := Option.some.inj h
        refine hs.proceed hsettled rfl rfl rfl rfl rfl fun phase htracks => ?_
        rcases hrest phase htracks with ⟨-, hsent⟩ | ⟨-, -, hphase⟩
        · exact absurd hsent hend
        · exact ⟨⟨_, hphase⟩, hnil, rfl⟩
  · cases h

theorem consistent_check {ok : Bool} (hs : s.Consistent repository)
    (h : s.stepCheck repository ok = some s') : s'.Consistent repository := by
  unfold stepCheck at h
  split at h
  · rename_i path hstage
    have hopen : s.isClosed = false := isClosed_of_isSettled (by rw [hstage]; rfl)
    split at h
    · obtain rfl := Option.some.inj h
      exact hs.close
    · split at h
      · obtain rfl := Option.some.inj h
        exact hs.advance hopen rfl rfl rfl (fun _ _ => trivial) fun hstatus => by cases hstatus
      · rename_i hread
        obtain rfl := Option.some.inj h
        refine hs.advance hopen rfl rfl rfl (fun _ _ => tracks_changeDirectory rfl) fun _ _ => ?_
        have hcan : s.canRead repository = true := by simpa using hread
        exact isAllowed_of_canRead (s := s) (hs.config hopen) hcan
  · cases h

theorem consistent_resolve {manifests : Except String Bool} (hs : s.Consistent repository)
    (horderly : Orderly repository s (.resolve manifests))
    (h : s.stepResolve manifests = some s') : s'.Consistent repository := by
  unfold stepResolve at h
  split at h
  · rename_i hstage
    have hsettled : s.stage.isSettled = true := by rw [hstage]; rfl
    cases manifests with
    | error text => exact horderly.elim
    | ok manifests =>
      obtain rfl := Option.some.inj h
      refine hs.proceed hsettled rfl rfl rfl rfl rfl fun phase htracks => ?_
      rw [Tracks, hstage] at htracks
      exact htracks
  · cases h

theorem consistent_streamDirectory {stream : Except String (Option DirectoryStream)}
    (hs : s.Consistent repository) (horderly : Orderly repository s (.streamDirectory stream))
    (h : s.stepStreamDirectory stream = some s') : s'.Consistent repository := by
  unfold stepStreamDirectory at h
  split at h
  · rename_i target hstage
    have hsettled : s.stage.isSettled = true := by rw [hstage]; rfl
    cases stream with
    | error text => exact horderly.elim
    | ok stream =>
      obtain rfl := Option.some.inj h
      refine hs.proceed hsettled rfl rfl rfl rfl rfl fun phase htracks => ?_
      rw [Tracks, hstage] at htracks
      refine ⟨htracks, ?_⟩
      cases stream with
      | none => rfl
      | some stream => exact horderly
  · cases h

theorem consistent_resolveProject {resolution : Option ProjectResolution}
    (hs : s.Consistent repository) (h : s.stepResolveProject resolution = some s') :
    s'.Consistent repository := by
  unfold stepResolveProject at h
  split at h
  · rename_i hstage
    have hsettled : s.stage.isSettled = true := by rw [hstage]; rfl
    obtain rfl := Option.some.inj h
    refine hs.proceed hsettled rfl rfl rfl rfl rfl fun phase htracks => ?_
    rw [Tracks, hstage] at htracks
    exact htracks
  · cases h

theorem consistent_login {result : Except String WebSocketAuthentication}
    (hs : s.Consistent repository) (h : s.stepLogin result = some s') :
    s'.Consistent repository := by
  unfold stepLogin at h
  split at h
  · rename_i message hstage
    have hsettled : s.stage.isSettled = true := by rw [hstage]; rfl
    cases result with
    | error text =>
      obtain rfl := Option.some.inj h
      exact hs.proceed hsettled rfl rfl rfl rfl rfl fun _ _ => trivial
    | ok auth =>
      obtain rfl := Option.some.inj h
      refine hs.advance (isClosed_of_isSettled hsettled) rfl rfl rfl (fun phase htracks => ?_)
        fun _ hnot => by cases hnot
      rw [Tracks, hstage] at htracks
      exact htracks
  · cases h

theorem consistent_checkLogin {ok : Bool} (hs : s.Consistent repository)
    (h : s.stepCheckLogin repository ok = some s') : s'.Consistent repository := by
  unfold stepCheckLogin at h
  split at h
  · rename_i hstage
    have hopen : s.isClosed = false := by rw [isClosed, hstage]
    split at h
    · obtain rfl := Option.some.inj h
      exact hs.close
    · split at h
      · obtain rfl := Option.some.inj h
        exact hs.advance hopen rfl rfl rfl (fun _ _ => trivial) fun hstatus => by cases hstatus
      · rename_i hread
        obtain rfl := Option.some.inj h
        refine hs.advance hopen rfl rfl rfl (fun phase htracks => ?_) fun _ _ => ?_
        · rw [Tracks, hstage] at htracks
          -- The status may be new, and was not asked for before.
          rcases htracks with hnil | ⟨-, hhidden, hphase⟩
          · exact ⟨rfl, .inl hnil⟩
          · exact ⟨rfl, .inr ⟨rfl, hhidden, hphase⟩⟩
        · have hcan : s.canRead repository = true := by simpa using hread
          exact isAllowed_of_canRead (s := s) (hs.config hopen) hcan
  · cases h

/-- The phase after the message at hand, and how the connection fits it afterwards. -/
theorem exists_next (allowed : Bool) {phase : Phase} {message : WebsocketOutgoingMessage}
    {ofListDirectory close : Bool}
    (hstage : s.stage = .sending message ofListDirectory close) (htracks : s.Tracks phase) :
    ∃ next, phase.next ⟨message, ofListDirectory, s.activePath.current.files, allowed⟩ = some next ∧
      (close = false → s.Rest next) := by
  rw [Tracks, hstage] at htracks
  cases message with
  | directoryItem file =>
    obtain ⟨hstatus, hhidden, rfl⟩ := htracks
    refine ⟨.listing s.activePath.current.files, ?_, fun _ => .inr ⟨hstatus, hhidden, rfl⟩⟩
    show (if file ∈ file :: s.activePath.current.files then _ else _) = _
    rw [if_pos List.mem_cons_self, List.erase_cons_head]
  | openedDirectory data =>
    exact ⟨.listing s.activePath.current.files, rfl, fun _ => .inr ⟨htracks.1, htracks.2, rfl⟩⟩
  | endOfDirectory =>
    obtain ⟨⟨rest, rfl⟩, hend⟩ := htracks
    exact ⟨.ended, rfl, fun _ => .inl hend⟩
  | error text =>
    cases close with
    | true =>
      cases ofListDirectory with
      | true => exact ⟨.idle, rfl, fun h => by cases h⟩
      | false => exact ⟨phase, rfl, fun h => by cases h⟩
    | false =>
      obtain ⟨rfl, hrest⟩ := htracks
      exact ⟨phase, rfl, fun _ => hrest⟩
  | unauthorized | authorized =>
    cases close with
    | true => exact ⟨phase, rfl, fun h => by cases h⟩
    | false => exact ⟨phase, rfl, fun _ => htracks.2⟩

theorem authorized_of_shows {phase : Phase} {message : WebsocketOutgoingMessage}
    {ofListDirectory close : Bool} (hstage : s.stage = .sending message ofListDirectory close)
    (htracks : s.Tracks phase) (hshows : message.shows = true) : s.accessStatus = .authorized := by
  rw [Tracks, hstage] at htracks
  cases message with
  | directoryItem file | openedDirectory data => exact htracks.1
  | _ => cases hshows

theorem consistent_send {ok : Bool} (hs : s.Consistent repository)
    (h : s.stepSend repository ok = some s') : s'.Consistent repository := by
  unfold stepSend at h
  split at h
  · rename_i message ofListDirectory close hstage
    have hsettled : s.stage.isSettled = true := by rw [hstage]; rfl
    have hallowed : s.accessStatus = .authorized → s.isAllowed repository = true := by
      intro hstatus
      exact hs.access (holdsAccess_iff.mpr ⟨hstatus, hsettled⟩)
    split at h
    · obtain rfl := Option.some.inj h
      exact hs.close
    · obtain rfl := Option.some.inj h
      obtain ⟨phase, hphase, htracks⟩ := hs.phase
      obtain ⟨next, hnext, hrest⟩ := exists_next (s.isAllowed repository) hstage htracks
      refine ⟨⟨next, ?_, ?_⟩, fun sent hsent hshows => ?_, fun hheld => ?_, fun _ hon => ?_⟩
      · show (phaseAfter s.sent).bind _ = some next
        rw [hphase]
        exact hnext
      · cases close with
        | true => trivial
        | false => exact hrest rfl
      · rcases List.mem_cons.mp hsent with rfl | hold
        · exact hallowed (authorized_of_shows hstage htracks hshows)
        · exact hs.allowed sent hold hshows
      · exact hallowed (holdsAccess_iff.mp hheld).1
      · exact hs.config (isClosed_of_isSettled hsettled) hon
  · cases h

theorem consistent_changeAccess {access : Access} (hs : s.Consistent repository)
    (horderly : Orderly repository s (.changeAccess access)) :
    ({ s with access } : BrowseSystem).Consistent repository := by
  obtain ⟨phase, hphase, htracks⟩ := hs.phase
  refine ⟨⟨phase, hphase, ?_⟩, hs.allowed, fun hheld => ?_, fun hopen hon => ?_⟩
  · exact htracks
  · have hopen : s.isClosed = false := isClosed_of_isSettled (holdsAccess_iff.mp hheld).2
    exact (horderly hopen).2 hheld
  · exact (horderly hopen).1 hon

theorem consistent_of_step (hs : s.Consistent repository) (horderly : Orderly repository s a)
    (h : s.step repository a = some s') : s'.Consistent repository := by
  cases a with
  | connect ping loaded => exact consistent_connect hs h
  | receive message => exact consistent_receive hs h
  | nextItem => exact consistent_nextItem hs h
  | check ok => exact consistent_check hs h
  | resolve manifests => exact consistent_resolve hs horderly h
  | streamDirectory stream => exact consistent_streamDirectory hs horderly h
  | resolveProject resolution => exact consistent_resolveProject hs h
  | login result => exact consistent_login hs h
  | checkLogin ok => exact consistent_checkLogin hs h
  | send ok => exact consistent_send hs h
  | changeAccess access =>
    obtain rfl := Option.some.inj h
    exact consistent_changeAccess hs horderly

theorem consistent_start (access : Access) : (start access).Consistent repository where
  phase := ⟨.idle, rfl, .inl ⟨rfl, rfl⟩⟩
  allowed := fun sent hsent => by cases hsent
  access := fun hheld => by cases (holdsAccess_iff.mp hheld).1
  config := fun _ _ => rfl

/-- **Main theorem.**  On a connection with orderly steps, every message fits the phase before it,
and what is shown may be read by the authentication then held. -/
theorem protocolOk {access : Access} {as : List BrowseAction}
    (hsteps : StepsOk (step repository) (Orderly repository) (start access) as)
    (hr : run (step repository) (start access) as = some s) : s.ProtocolOk := by
  have hs : s.Consistent repository :=
    run_invariant_of_stepsOk (fun _ _ _ hs hP h => consistent_of_step hs hP h)
      (consistent_start access) hsteps hr
  obtain ⟨phase, hphase, -⟩ := hs.phase
  exact ⟨by rw [hphase]; rfl, hs.allowed⟩

/-! ### Two connections -/

/-- A public repository without authentication, in which no user has permissions of its own. -/
def publicAccess : Access where
  db := ⟨fun _ _ => none, fun _ => [], fun _ _ => none⟩
  visibility := .«public»
  authConfig := ⟨false⟩

def mavenRepository : BrowsedRepository := ⟨1, false⟩

/-- `ListDirectory`, answered by the directory that lists `items`. -/
def listDirectory (items : List (Except String (Option BrowseFile))) : List BrowseAction :=
  [.receive (.listDirectory (StoragePath.ofString "com/")), .check true,
    .streamDirectory (.ok (some ⟨items, items.length⟩)), .resolveProject none, .send true]

def showItem : List BrowseAction := [.nextItem, .send true]

/-- A directory with two files is listed. -/
theorem protocolOk_twoFiles :
    ∃ s, run (step mavenRepository) (start publicAccess) (.connect true true ::
        listDirectory [.ok (some (.file "a.jar" 1)), .ok (some (.file "b.jar" 2))] ++
          showItem ++ showItem ++ showItem) = some s ∧ s.ProtocolOk := by
  have hsome : (run (step mavenRepository) (start publicAccess) (.connect true true ::
      listDirectory [.ok (some (.file "a.jar" 1)), .ok (some (.file "b.jar" 2))] ++
        showItem ++ showItem ++ showItem)).isSome = true := by decide
  obtain ⟨s, hs⟩ := Option.isSome_iff_exists.mp hsome
  exact ⟨s, hs, protocolOk (by decide) hs⟩

/-- A directory with a hidden entry: its end is announced before its file and after it. -/
theorem not_protocolOk_hiddenEntry :
    ¬ ∀ (repository : BrowsedRepository) (access : Access) (s : BrowseSystem)
      (as : List BrowseAction), run (step repository) (start access) as = some s →
        s.ProtocolOk := by
  intro hall
  have hphase : (run (step mavenRepository) (start publicAccess) (.connect true true ::
      listDirectory [.ok none, .ok (some (.file "a.jar" 1))] ++
        showItem ++ showItem ++ showItem)).map (fun s =>
          (s.sent.map Sent.message, phaseAfter s.sent)) =
      some ([.endOfDirectory, .directoryItem (.file "a.jar" 1), .endOfDirectory,
        .openedDirectory ⟨some ⟨none, none⟩, 2⟩], none) := by
    decide
  obtain ⟨s, hs, heq⟩ := Option.map_eq_some_iff.mp hphase
  obtain ⟨-, hnone⟩ := Prod.mk.inj heq
  have hok := (hall mavenRepository publicAccess s _ hs).1
  rw [hnone] at hok
  cases hok

/-- A directory that cannot be opened: the end of the one before it is announced once more. -/
example : (run (step mavenRepository) (start publicAccess) (.connect true true ::
    listDirectory [] ++ showItem ++ [.receive (.listDirectory (StoragePath.ofString "org/")),
      .streamDirectory (.error "permission denied"), .send true] ++ showItem)).map (fun s =>
        (s.sent.map Sent.message, phaseAfter s.sent)) =
    some ([.endOfDirectory, .error "permission denied", .endOfDirectory,
      .openedDirectory ⟨some ⟨none, none⟩, 0⟩], none) := by
  decide

end BrowseSystem

end Pkgly.Browse
