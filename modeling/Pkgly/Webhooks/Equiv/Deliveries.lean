import Pkgly.Webhooks.Deliveries

/-!
# What the delivery queue guarantees

Every step of the queue is one of a few moves (`Moves`).  From them: a row that is delivered or failed
never changes (`get_of_step`), a write changes a row only under its claim token
(`claimToken_of_finalize`), and two workers never hold claims of one row that have not expired
(`claim_unique`).

The number of requests is bounded (`deliveries_safe`) as long as each request is sent under the claim
that is stored, and no claim is taken over after its request has been sent.  A worker that crashes
after it has sent a request breaks the bound (`not_queueSafe_crashing`).
-/

namespace Pkgly.Webhooks

variable {β : Type} {q q' : Queue β} {p p' : Process β} {d d' : Delivery β} {id : ℕ} {event : Event}

/-! ### Moves -/

def Process.claim? : Process β → Option (ClaimedDelivery β × ℕ)
  | .worker (.claimed delivery expiresAt) => some (delivery, expiresAt)
  | .worker (.answered delivery expiresAt _) => some (delivery, expiresAt)
  | _ => none

inductive Moves (q : Queue β) : Event → Queue β → Process β → Process β → Prop
  /-- Nothing is written, and no claim is held any more. -/
  | ends {event : Event} {p p' : Process β} (hp : p'.claim? = none) : Moves q event q p p'
  | claimsNothing {skipped : List ℕ} : Moves q (.claims skipped)
      { q with nextToken := q.nextToken + 1 } (.worker .idle) (.worker .idle)
  | claims {skipped : List ℕ} {id : ℕ} {d : Delivery β}
      (hcandidate : q.candidate skipped = some ⟨id, d⟩) :
      Moves q (.claims skipped) { q with
          deliveries := q.deliveries.put id (d.claim q.now q.nextToken)
          nextToken := q.nextToken + 1 }
        (.worker .idle)
        (.worker (.claimed ⟨id, q.nextToken, d.job, d.attempts⟩ (q.now + deliveryClaimTtl)))
  | sends {delivery : ClaimedDelivery β} {expiresAt clock : ℕ} {reply : Reply} :
      Moves q (.sends clock reply) { q with sent := q.sent ++ [delivery.id] }
        (.worker (.claimed delivery expiresAt))
        (.worker (.answered delivery expiresAt (deliverOnce clock reply delivery)))
  | finalizes {delivery : ClaimedDelivery β} {expiresAt : ℕ} {outcome : DeliveryAttemptOutcome}
      {d : Delivery β} (hget : q.deliveries.get delivery.id = some d)
      (htoken : d.claimToken = some delivery.claimToken) :
      Moves q .writes
        { q with deliveries := q.deliveries.put delivery.id (d.finalize q.now outcome) }
        (.worker (.answered delivery expiresAt outcome)) (.worker .idle)
  | enqueues {job : β} : Moves q .writes (q.enqueue job) (.enqueuing job) .enqueued

theorem candidate_spec {skipped : List ℕ} (h : q.candidate skipped = some ⟨id, d⟩) :
    q.deliveries.get id = some d ∧ d.isDue q.now = true := by
  have hmem := List.argmin_mem (Option.mem_def.mpr h)
  rw [List.mem_filter, Bool.and_eq_true] at hmem
  exact ⟨Store.get_eq_some_iff.mpr hmem.1, hmem.2.1⟩

theorem finalize_cases (delivery : ClaimedDelivery β) (outcome : DeliveryAttemptOutcome) :
    q.finalizeDeliveryAttempt delivery outcome = q ∨
      ∃ d, q.deliveries.get delivery.id = some d ∧ d.claimToken = some delivery.claimToken ∧
        q.finalizeDeliveryAttempt delivery outcome =
          { q with deliveries := q.deliveries.put delivery.id (d.finalize q.now outcome) } := by
  unfold Queue.finalizeDeliveryAttempt
  grind

theorem moves_of_next (h : p.next event q = some (q', p')) : Moves q event q' p p' := by
  cases p with
  | enqueued => cases h
  | enqueuing job =>
    cases event with
    | writes =>
      cases h
      exact .enqueues
    | fails =>
      cases h
      exact .ends rfl
    | _ => cases h
  | worker w =>
    obtain ⟨⟨t, w'⟩, hnext, heq⟩ := Option.map_eq_some_iff.mp h
    cases heq
    cases w with
    | crashed => cases hnext
    | idle =>
      cases event with
      | claims skipped =>
        simp only [Worker.next, Queue.claimNextDelivery] at hnext
        cases hcandidate : q.candidate skipped with
        | none =>
          rw [hcandidate] at hnext
          cases hnext
          exact .claimsNothing
        | some e =>
          rw [hcandidate] at hnext
          cases hnext
          exact .claims hcandidate
      | fails | crashes =>
        cases hnext
        exact .ends rfl
      | _ => cases hnext
    | claimed delivery expiresAt =>
      cases event with
      | sends clock reply =>
        cases hnext
        exact .sends
      | crashes =>
        cases hnext
        exact .ends rfl
      | _ => cases hnext
    | answered delivery expiresAt outcome =>
      cases event with
      | writes =>
        cases hnext
        rcases finalize_cases (q := q) delivery outcome with heq | ⟨d, hget, htoken, heq⟩
        · rw [heq]
          exact .ends rfl
        · rw [heq]
          exact .finalizes hget htoken
      | fails | crashes =>
        cases hnext
        exact .ends rfl
      | _ => cases hnext

/-! ### Claims -/

structure RowOk (q : Queue β) (id : ℕ) (d : Delivery β) : Prop where
  id_lt : id < q.nextId
  token : ∀ t, d.claimToken = some t → t < q.nextToken ∧ d.status = .processing

/-- Every row is as `RowOk` says. -/
def QueueOk (q : Queue β) : Prop := ∀ id d, q.deliveries.get id = some d → RowOk q id d

structure ClaimOk (q : Queue β) (claim : ClaimedDelivery β × ℕ) : Prop where
  token_lt : claim.1.claimToken < q.nextToken
  stored : q.now < claim.2 → ∃ d, q.deliveries.get claim.1.id = some d ∧
    d.claimToken = some claim.1.claimToken ∧ d.claimExpiresAt = some claim.2 ∧
      d.status = .processing

def claimInvariant (β : Type) : Pool.Invariant (Queue β) (Process β) where
  shared := QueueOk
  each q p := ∀ claim ∈ p.claim?, ClaimOk q claim
  pair p p' := ∀ claim ∈ p.claim?, ∀ claim' ∈ p'.claim?, claim.1.claimToken ≠ claim'.1.claimToken

theorem not_lt_of_isDue {expiresAt : ℕ} (h : d.isDue q.now = true) (hstatus : d.status = .processing)
    (hexpires : d.claimExpiresAt = some expiresAt) : ¬ q.now < expiresAt := by
  simp_all [Delivery.isDue, Bool.and_eq_true, Bool.or_eq_true, Option.all_some, decide_eq_true_eq]

theorem status_of_isDue {now : ℕ} (h : d.isDue now = true) :
    d.status = .pending ∨ d.status = .processing := by
  simp only [Delivery.isDue, Bool.and_eq_true, Bool.or_eq_true, beq_iff_eq] at h
  exact h.2.imp id And.left

theorem claimToken_finalize (now : ℕ) (outcome : DeliveryAttemptOutcome) (d : Delivery β) :
    (d.finalize now outcome).claimToken = none := by
  cases outcome <;> rfl

theorem Moves.queueOk (h : Moves q event q' p p') (hq : QueueOk q) : QueueOk q' := by
  intro id' d' hget'
  cases h with
  | ends | sends => exact ⟨(hq id' d' hget').id_lt, (hq id' d' hget').token⟩
  | claimsNothing =>
    have hrow := hq id' d' hget'
    exact ⟨hrow.id_lt, fun t ht => ⟨Nat.lt_succ_of_lt (hrow.token t ht).1, (hrow.token t ht).2⟩⟩
  | @claims skipped id d hcandidate =>
    rcases Store.get_put_eq_some.mp hget' with ⟨rfl, rfl⟩ | ⟨-, hold⟩
    · refine ⟨(hq _ d (candidate_spec hcandidate).1).id_lt, fun t ht => ?_⟩
      obtain rfl := Option.some.inj ht
      exact ⟨Nat.lt_succ_self _, rfl⟩
    · have hrow := hq id' d' hold
      exact ⟨hrow.id_lt, fun t ht => ⟨Nat.lt_succ_of_lt (hrow.token t ht).1, (hrow.token t ht).2⟩⟩
  | @finalizes delivery expiresAt outcome d hget htoken =>
    rcases Store.get_put_eq_some.mp hget' with ⟨rfl, rfl⟩ | ⟨-, hold⟩
    · refine ⟨(hq _ d hget).id_lt, fun t ht => ?_⟩
      rw [claimToken_finalize] at ht
      cases ht
    · exact ⟨(hq id' d' hold).id_lt, (hq id' d' hold).token⟩
  | @enqueues job =>
    rcases Store.get_put_eq_some.mp hget' with ⟨rfl, rfl⟩ | ⟨-, hold⟩
    · exact ⟨Nat.lt_succ_self _, fun t ht => by cases ht⟩
    · exact ⟨Nat.lt_succ_of_lt (hq id' d' hold).id_lt, (hq id' d' hold).token⟩

/-- The claim that a process holds after a step is the one before, or a new one. -/
theorem Moves.claim (h : Moves q event q' p p')
    (hp : ∀ claim ∈ p.claim?, ClaimOk q claim) :
    ∀ claim ∈ p'.claim?, ClaimOk q' claim ∧
      (claim ∈ p.claim? ∨ claim.1.claimToken = q.nextToken) := by
  intro claim hclaim
  cases h with
  | ends hnone =>
    rw [hnone] at hclaim
    cases hclaim
  | claimsNothing => cases hclaim
  | claims =>
    obtain rfl := Option.some.inj hclaim
    exact ⟨⟨Nat.lt_succ_self _, fun _ => ⟨_, Store.get_put_self _ _ _, rfl, rfl, rfl⟩⟩, .inr rfl⟩
  | sends =>
    obtain rfl := Option.some.inj hclaim
    exact ⟨⟨(hp _ rfl).token_lt, (hp _ rfl).stored⟩, .inl rfl⟩
  | finalizes | enqueues => cases hclaim

variable {claim : ClaimedDelivery β × ℕ} {as : List (Pool.Action (Input β) Choice)}
  {delivery : ClaimedDelivery β}

theorem Moves.claimOk_other (h : Moves q event q' p p') (hq : QueueOk q) (hclaim : ClaimOk q claim)
    (hother : ∀ claim' ∈ p.claim?, claim'.1.claimToken ≠ claim.1.claimToken) : ClaimOk q' claim := by
  cases h with
  | ends => exact hclaim
  | claimsNothing => exact ⟨Nat.lt_succ_of_lt hclaim.token_lt, hclaim.stored⟩
  | @claims skipped id d hcandidate =>
    refine ⟨Nat.lt_succ_of_lt hclaim.token_lt, fun hlt => ?_⟩
    obtain ⟨hget, hdue⟩ := candidate_spec hcandidate
    obtain ⟨e, he, htoken, hexpires, hstatus⟩ := hclaim.stored hlt
    -- a row with a claim that has not expired is not due
    have hne : claim.1.id ≠ id := by
      rintro rfl
      obtain rfl := Option.some.inj (he.symm.trans hget)
      exact not_lt_of_isDue hdue hstatus hexpires hlt
    exact ⟨e, (Store.get_put_of_ne _ _ hne).trans he, htoken, hexpires, hstatus⟩
  | sends => exact ⟨hclaim.token_lt, hclaim.stored⟩
  | @finalizes delivery expiresAt outcome d hget htoken' =>
    refine ⟨hclaim.token_lt, fun hlt => ?_⟩
    obtain ⟨e, he, htoken, hexpires, hstatus⟩ := hclaim.stored hlt
    have hne : claim.1.id ≠ delivery.id := by
      intro heq
      rw [heq, hget] at he
      obtain rfl := Option.some.inj he
      exact hother _ rfl (Option.some.inj (htoken'.symm.trans htoken))
    exact ⟨e, (Store.get_put_of_ne _ _ hne).trans he, htoken, hexpires, hstatus⟩
  | @enqueues job =>
    refine ⟨hclaim.token_lt, fun hlt => ?_⟩
    obtain ⟨e, he, htoken, hexpires, hstatus⟩ := hclaim.stored hlt
    have hne : claim.1.id ≠ q.nextId := Nat.ne_of_lt (hq _ e he).id_lt
    exact ⟨e, (Store.get_put_of_ne _ _ hne).trans he, htoken, hexpires, hstatus⟩

theorem ClaimOk.of_le (elapsed : ℕ) (h : ClaimOk q claim) :
    ClaimOk { q with now := q.now + elapsed } claim := by
  refine ⟨h.token_lt, fun hlt => h.stored ?_⟩
  have hlt' : q.now + elapsed < claim.2 := hlt
  omega

abbrev Service (β : Type) := Pool (Queue β) (Process β)

variable {s s' : Service β} {a : Pool.Action (Input β) Choice}

theorem claim?_init (input : Input β) : ((webhookService β).init input).claim? = none := by
  cases input <;> rfl

theorem claims_of_step (h : Pool.Holds (claimInvariant β) s)
    (hstep : (webhookService β).step s a = some s') : Pool.Holds (claimInvariant β) s' := by
  refine h.of_step hstep (fun input _ => ?_) fun i choice p t p' _ hi hnext => ?_
  · have hnone := claim?_init input
    refine ⟨fun claim hclaim => ?_, fun r => ⟨fun _ _ claim' hclaim' => ?_, fun claim hclaim => ?_⟩⟩
    · rw [hnone] at hclaim
      cases hclaim
    · rw [hnone] at hclaim'
      cases hclaim'
    · rw [hnone] at hclaim
      cases hclaim
  · have hmoves := moves_of_next hnext
    have hq : QueueOk { s.shared with now := s.shared.now + choice.elapsed } := fun id d hget =>
      ⟨(h.shared id d hget).id_lt, (h.shared id d hget).token⟩
    have hp : ∀ claim ∈ p.claim?,
        ClaimOk { s.shared with now := s.shared.now + choice.elapsed } claim :=
      fun claim hclaim => (h.each i p hi claim hclaim).of_le _
    refine ⟨hmoves.queueOk hq, fun claim hclaim => (hmoves.claim hp claim hclaim).1,
      fun j r hij hj => ?_⟩
    have hr : ∀ claim ∈ r.claim?,
        ClaimOk { s.shared with now := s.shared.now + choice.elapsed } claim :=
      fun claim hclaim => (h.each j r hj claim hclaim).of_le _
    have hne : ∀ claim ∈ p'.claim?, ∀ claim' ∈ r.claim?,
        claim.1.claimToken ≠ claim'.1.claimToken := by
      intro claim hclaim claim' hclaim'
      rcases (hmoves.claim hp claim hclaim).2 with hold | hnew
      · exact h.pair i j p r hij hi hj claim hold claim' hclaim'
      · rw [hnew]
        exact Ne.symm (Nat.ne_of_lt (hr claim' hclaim').token_lt)
    refine ⟨fun claim hclaim => hmoves.claimOk_other hq (hr claim hclaim) fun claim' hclaim' =>
      h.pair i j p r hij hi hj claim' hclaim' claim hclaim, hne, fun claim hclaim claim' hclaim' =>
        Ne.symm (hne claim' hclaim' claim hclaim)⟩

/-- A queue without deliveries and workers. -/
def emptyService (β : Type) : Service β := ⟨⟨0, ∅, 0, 0, []⟩, []⟩

theorem claims_of_run (hrun : run (webhookService β).step (emptyService β) as = some s) :
    Pool.Holds (claimInvariant β) s :=
  run_invariant (fun _ _ _ => claims_of_step) (Pool.holds_nil fun _ _ hget => by cases hget) hrun

/-- **At most one claim** of a row has not expired. -/
theorem claim_unique (hrun : run (webhookService β).step (emptyService β) as = some s) {i j : ℕ}
    {claim' : ClaimedDelivery β × ℕ} (hi : s.processes[i]?.bind Process.claim? = some claim)
    (hj : s.processes[j]?.bind Process.claim? = some claim') (hid : claim.1.id = claim'.1.id)
    (hlt : s.shared.now < claim.2) (hlt' : s.shared.now < claim'.2) : i = j := by
  have h := claims_of_run hrun
  obtain ⟨p, hp, hclaim⟩ := Option.bind_eq_some_iff.mp hi
  obtain ⟨p', hp', hclaim'⟩ := Option.bind_eq_some_iff.mp hj
  obtain ⟨d, hget, htoken, -⟩ := (h.each i p hp claim hclaim).stored hlt
  obtain ⟨d', hget', htoken', -⟩ := (h.each j p' hp' claim' hclaim').stored hlt'
  rw [← hid, hget] at hget'
  obtain rfl := Option.some.inj hget'
  by_contra hij
  exact h.pair i j p p' hij hp hp' claim hclaim claim' hclaim'
    (Option.some.inj (htoken.symm.trans htoken'))

/-! ### Rows -/

def Delivery.isFinal (d : Delivery β) : Bool := d.status == .delivered || d.status == .failed

theorem Delivery.isFinal_iff : d.isFinal = true ↔ d.status = .delivered ∨ d.status = .failed := by
  rw [isFinal, Bool.or_eq_true, beq_iff_eq, beq_iff_eq]

theorem Moves.get_of_isFinal (h : Moves q event q' p p') (hq : QueueOk q)
    (hget : q.deliveries.get id = some d) (hfinal : d.isFinal = true) :
    q'.deliveries.get id = some d := by
  rw [Delivery.isFinal_iff] at hfinal
  cases h with
  | ends | claimsNothing | sends => exact hget
  | @claims skipped id' d' hcandidate =>
    obtain ⟨hget', hdue⟩ := candidate_spec hcandidate
    refine (Store.get_put_of_ne _ _ ?_).trans hget
    rintro rfl
    obtain rfl := Option.some.inj (hget.symm.trans hget')
    grind [status_of_isDue, absurd]
  | @finalizes delivery expiresAt outcome d' hget' htoken =>
    refine (Store.get_put_of_ne _ _ ?_).trans hget
    rintro rfl
    obtain rfl := Option.some.inj (hget.symm.trans hget')
    have h := ((hq _ _ hget).token _ htoken).2
    rcases hfinal with h' | h' <;> exact absurd (h.symm.trans h') nofun
  | @enqueues job => exact (Store.get_put_of_ne _ _ (Nat.ne_of_lt (hq id d hget).id_lt)).trans hget

/-- **A delivery that is delivered or failed never changes.** -/
theorem get_of_run {bs : List (Pool.Action (Input β) Choice)}
    (hrun : run (webhookService β).step (emptyService β) as = some s)
    (hrun' : run (webhookService β).step s bs = some s')
    (hget : s.shared.deliveries.get id = some d) (hfinal : d.isFinal = true) :
    s'.shared.deliveries.get id = some d := by
  refine (run_invariant (I := fun t : Service β => Pool.Holds (claimInvariant β) t ∧
    t.shared.deliveries.get id = some d) ?_ ⟨claims_of_run hrun, hget⟩ hrun').2
  rintro t a t' ⟨ht, hget⟩ hstep
  refine ⟨claims_of_step ht hstep, ?_⟩
  cases a with
  | start input =>
    obtain rfl := Option.some.inj hstep
    exact hget
  | advance i choice =>
    obtain ⟨p, u, p', -, hnext, rfl⟩ := Program.step_advance hstep
    refine (moves_of_next hnext).get_of_isFinal (fun id' d' hget' => ?_) hget hfinal
    exact ⟨(ht.shared id' d' hget').id_lt, (ht.shared id' d' hget').token⟩

/-- **A write changes a row only under the token that is stored in it.** -/
theorem claimToken_of_finalize {outcome : DeliveryAttemptOutcome}
    (hget : q.deliveries.get id = some d)
    (hchanged : (q.finalizeDeliveryAttempt delivery outcome).deliveries.get id ≠ some d) :
    id = delivery.id ∧ d.claimToken = some delivery.claimToken := by
  rcases finalize_cases (q := q) delivery outcome with heq | ⟨d', hget', htoken, heq⟩
  · rw [heq] at hchanged
    exact absurd hget hchanged
  · rw [heq] at hchanged
    by_cases hid : id = delivery.id
    · rw [hid, hget'] at hget
      obtain rfl := Option.some.inj hget
      exact ⟨hid, htoken⟩
    · exact absurd ((Store.get_put_of_ne _ _ hid).trans hget) hchanged

/-! ### Requests -/

structure CountOk (q : Queue β) (id : ℕ) (d : Delivery β) : Prop where
  settled : d.status ≠ .processing → q.sent.count id = d.attempts
  count_le : q.sent.count id ≤ d.attempts + 1
  attempts_le : d.attempts ≤ maxDeliveryAttempts
  attempts_lt : d.status = .pending ∨ d.status = .processing → d.attempts < maxDeliveryAttempts

theorem CountOk.congr (h : CountOk q id d) (hsent : q'.sent.count id = q.sent.count id) :
    CountOk q' id d :=
  ⟨fun hne => hsent.trans (h.settled hne), hsent.trans_le h.count_le, h.attempts_le, h.attempts_lt⟩

def Process.WorkOk (q : Queue β) : Process β → Prop
  | .worker (.claimed delivery _) => ∀ d, q.deliveries.get delivery.id = some d →
    d.claimToken = some delivery.claimToken →
      delivery.attempts = d.attempts ∧ q.sent.count delivery.id = d.attempts
  | .worker (.answered delivery _ outcome) => ∀ d, q.deliveries.get delivery.id = some d →
    d.claimToken = some delivery.claimToken → q.sent.count delivery.id = d.attempts + 1 ∧
      ∀ httpStatus error nextAttemptAt, outcome = .retryable httpStatus error nextAttemptAt →
        d.attempts + 1 < maxDeliveryAttempts
  | _ => True

structure BoundOk (q : Queue β) : Prop where
  queue : QueueOk q
  count : ∀ id d, q.deliveries.get id = some d → CountOk q id d
  sent_get : ∀ id ∈ q.sent, (q.deliveries.get id).isSome = true

theorem isSome_get_put {deliveries : Store ℕ (Delivery β)} {id' : ℕ}
    (h : (deliveries.get id).isSome = true) : ((deliveries.put id' d).get id).isSome = true := by
  rw [Store.get_put]
  split_ifs
  · rfl
  · exact h

def boundInvariant (β : Type) : Pool.Invariant (Queue β) (Process β) where
  shared := BoundOk
  each q p := (∀ claim ∈ p.claim?, ClaimOk q claim) ∧ p.WorkOk q
  pair p p' := ∀ claim ∈ p.claim?, ∀ claim' ∈ p'.claim?, claim.1.claimToken ≠ claim'.1.claimToken

/-- The condition on a step: a claim that is taken over has sent no request that is not counted, and
a request is sent under the claim that is stored. -/
def stepOk (q : Queue β) (event : Event) (p : Process β) : Bool :=
  match p, event with
  | .worker .idle, .claims skipped => (q.candidate skipped).all fun e =>
    e.2.status == .pending || q.sent.count e.1 == e.2.attempts
  | .worker (.claimed delivery _), .sends _ _ =>
    (q.deliveries.get delivery.id).any fun d => d.claimToken == some delivery.claimToken
  | _, _ => true

def deliveryGuarded (s : Service β) : Pool.Action (Input β) Choice → Bool
  | .start _ => true
  | .advance i choice => s.processes[i]?.all
      (stepOk { s.shared with now := s.shared.now + choice.elapsed } choice.event)

theorem nextRetryAt_eq_some {now attemptNumber nextAttemptAt : ℕ}
    (h : nextRetryAt now attemptNumber = some nextAttemptAt) : attemptNumber < maxDeliveryAttempts := by
  unfold nextRetryAt at h
  split_ifs at h with hlast
  exact Nat.lt_of_not_le hlast

theorem attempts_lt_of_retryable {clock : ℕ} {reply : Reply}
    {httpStatus : Option ℕ} {error : String} {nextAttemptAt : ℕ}
    (h : deliverOnce clock reply delivery = .retryable httpStatus error nextAttemptAt) :
    delivery.attempts + 1 < maxDeliveryAttempts := by
  cases reply with
  | response status =>
    simp only [deliverOnce, classifyHttpResponse] at h
    split_ifs at h
    split at h
    next nextAttemptAt hretry => exact nextRetryAt_eq_some hretry
    · cases h
  | error e =>
    simp only [deliverOnce, classifyTransportError] at h
    split_ifs at h
    split at h
    next nextAttemptAt hretry => exact nextRetryAt_eq_some hretry
    · cases h

/-- A move under the condition keeps the state that the bound rests on, and the work of the process. -/
theorem Moves.boundOk (h : Moves q event q' p p') (hq : BoundOk q)
    (hp : ∀ claim ∈ p.claim?, ClaimOk q claim) (hwork : p.WorkOk q)
    (hok : stepOk q event p = true) : BoundOk q' ∧ p'.WorkOk q' := by
  have hqueue := h.queueOk hq.queue
  cases h with
  | ends hnone =>
    refine ⟨hq, ?_⟩
    cases p' with
    | worker w =>
      cases w with
      | claimed | answered => cases hnone
      | _ => trivial
    | _ => trivial
  | claimsNothing =>
    exact ⟨⟨hqueue, fun id d hget => (hq.count id d hget).congr rfl, hq.sent_get⟩, trivial⟩
  | @claims skipped id d hcandidate =>
    obtain ⟨hget, hdue⟩ := candidate_spec hcandidate
    have hcount := hq.count id d hget
    have hsent : q.sent.count id = d.attempts := by
      rw [stepOk, hcandidate, Option.all_some, Bool.or_eq_true, beq_iff_eq, beq_iff_eq] at hok
      rcases hok with hpending | heq
      · exact hcount.settled (by rw [hpending]; nofun)
      · exact heq
    refine ⟨⟨hqueue, fun id' d' hget' => ?_, fun id' hid' => isSome_get_put (hq.sent_get id' hid')⟩,
      fun d' hget' _ => ?_⟩
    · rcases Store.get_put_eq_some.mp hget' with ⟨rfl, rfl⟩ | ⟨-, hold⟩
      · exact ⟨fun hne => absurd rfl hne, hcount.count_le, hcount.attempts_le,
          fun _ => hcount.attempts_lt (status_of_isDue hdue)⟩
      · exact (hq.count id' d' hold).congr rfl
    aesop
  | @sends delivery expiresAt clock reply =>
    obtain ⟨d, hget, htoken⟩ := (Option.any_eq_true _ _).mp hok
    rw [beq_iff_eq] at htoken
    obtain ⟨hattempts, hsent⟩ := hwork d hget htoken
    have hsent' : (q.sent ++ [delivery.id]).count delivery.id = d.attempts + 1 := by
      rw [List.count_append, hsent, List.count_singleton_self]
    refine ⟨⟨hqueue, fun id' d' hget' => ?_, fun id' hid' => ?_⟩, fun d' hget' htoken' => ?_⟩
    · have hcount' := hq.count id' d' hget'
      by_cases hid : id' = delivery.id
      · subst hid
        obtain rfl := Option.some.inj (hget.symm.trans hget')
        refine ⟨fun hne => absurd ((hq.queue _ _ hget).token _ htoken).2 hne, ?_,
          hcount'.attempts_le, hcount'.attempts_lt⟩
        exact le_of_eq hsent'
      · have hsame : (q.sent ++ [delivery.id]).count id' = q.sent.count id' := by grind
        exact hcount'.congr hsame
    · rcases List.mem_append.mp hid' with hid' | hid'
      · exact hq.sent_get id' hid'
      · rw [List.mem_singleton.mp hid']
        exact Option.isSome_iff_exists.mpr ⟨d, hget⟩
    grind [Option.some.inj, attempts_lt_of_retryable]
  | @finalizes delivery expiresAt outcome d hget htoken =>
    obtain ⟨hsent, hretry⟩ := hwork d hget htoken
    have hcount := hq.count _ d hget
    have hlt : d.attempts < maxDeliveryAttempts :=
      hcount.attempts_lt (.inr ((hq.queue _ _ hget).token _ htoken).2)
    have hattempts : (d.finalize q.now outcome).attempts = d.attempts + 1 := by
      cases outcome <;> rfl
    refine ⟨⟨hqueue, fun id' d' hget' => ?_, fun id' hid' => isSome_get_put (hq.sent_get id' hid')⟩,
      trivial⟩
    rcases Store.get_put_eq_some.mp hget' with ⟨rfl, rfl⟩ | ⟨-, hold⟩
    · refine ⟨fun _ => by rw [hattempts]; exact hsent, by rw [hattempts]; exact hsent.le.trans (Nat.le_succ _),
        by rw [hattempts]; exact hlt, fun hstatus => ?_⟩
      rw [hattempts]
      cases outcome with
      | retryable httpStatus error nextAttemptAt => exact hretry _ _ _ rfl
      | delivered httpStatus | failed httpStatus error => rcases hstatus with h | h <;> cases h
    · exact (hq.count id' d' hold).congr rfl
  | @enqueues job =>
    refine ⟨⟨hqueue, fun id' d' hget' => ?_, fun id' hid' => isSome_get_put (hq.sent_get id' hid')⟩,
      trivial⟩
    rcases Store.get_put_eq_some.mp hget' with ⟨rfl, rfl⟩ | ⟨-, hold⟩
    · have hnone : q.sent.count q.nextId = 0 :=
        List.count_eq_zero.mpr fun hmem => by
          obtain ⟨d, hget⟩ := Option.isSome_iff_exists.mp (hq.sent_get _ hmem)
          exact Nat.lt_irrefl _ (hq.queue _ _ hget).id_lt
      have hzero : (q.enqueue job).sent.count q.nextId = 0 := hnone
      exact ⟨fun _ => hzero, by rw [hzero]; exact Nat.zero_le _, Nat.zero_le _, fun _ => Nat.succ_pos 4⟩
    · exact (hq.count id' d' hold).congr rfl

theorem Moves.workOk_other (h : Moves q event q' p p') (hok : stepOk q event p = true)
    {r : Process β} (hclaim : ∀ claim ∈ r.claim?, ClaimOk q claim)
    (hother : ∀ claim ∈ p.claim?, ∀ claim' ∈ r.claim?, claim.1.claimToken ≠ claim'.1.claimToken)
    (hwork : r.WorkOk q) : r.WorkOk q' := by
  -- what is read of the row of a claim is as before, unless the claim is not the stored one
  have hrow : ∀ claim ∈ r.claim?, ∀ d, q'.deliveries.get claim.1.id = some d →
      d.claimToken = some claim.1.claimToken →
        q.deliveries.get claim.1.id = some d ∧
          q'.sent.count claim.1.id = q.sent.count claim.1.id := by
    intro claim hmem d hget htoken
    cases h with
    | ends | claimsNothing => exact ⟨hget, rfl⟩
    | claims =>
      rcases Store.get_put_eq_some.mp hget with ⟨-, rfl⟩ | ⟨-, hold⟩
      · have hlt := (hclaim claim hmem).token_lt
        rw [← Option.some.inj htoken] at hlt
        exact absurd hlt (Nat.lt_irrefl _)
      · exact ⟨hold, rfl⟩
    | @sends delivery =>
      refine ⟨hget, ?_⟩
      have hne : claim.1.id ≠ delivery.id := by
        intro hid
        obtain ⟨d', hget', htoken'⟩ := (Option.any_eq_true _ _).mp hok
        rw [beq_iff_eq] at htoken'
        have hget'' : q.deliveries.get claim.1.id = some d := hget
        rw [hid, hget'] at hget''
        obtain rfl := Option.some.inj hget''
        exact hother _ rfl claim hmem (Option.some.inj (htoken'.symm.trans htoken))
      rw [List.count_append, List.count_singleton, beq_eq_false_iff_ne.mpr (Ne.symm hne)]
      rfl
    | finalizes =>
      rcases Store.get_put_eq_some.mp hget with ⟨-, rfl⟩ | ⟨-, hold⟩
      · rw [claimToken_finalize] at htoken
        cases htoken
      · exact ⟨hold, rfl⟩
    | enqueues =>
      rcases Store.get_put_eq_some.mp hget with ⟨-, rfl⟩ | ⟨-, hold⟩
      · cases htoken
      · exact ⟨hold, rfl⟩
  cases r with
  | worker w =>
    cases w with
    | claimed delivery expiresAt | answered delivery expiresAt outcome =>
      intro d hget htoken
      obtain ⟨hget', hcount⟩ := hrow (delivery, expiresAt) rfl d hget htoken
      rw [hcount]
      exact hwork d hget' htoken
    | _ => trivial
  | _ => trivial

theorem Process.WorkOk.of_le {elapsed : ℕ} (h : p.WorkOk q) :
    p.WorkOk { q with now := q.now + elapsed } := by
  cases p with
  | worker w => cases w <;> exact h
  | _ => trivial

theorem bound_of_step (h : Pool.Holds (boundInvariant β) s) (hg : deliveryGuarded s a = true)
    (hstep : (webhookService β).step s a = some s') : Pool.Holds (boundInvariant β) s' := by
  have hclaims : Pool.Holds (claimInvariant β) s :=
    ⟨h.shared.queue, fun i p hi => (h.each i p hi).1, h.pair⟩
  have hclaims' := claims_of_step hclaims hstep
  have hall : BoundOk s'.shared ∧ ∀ (i : ℕ) (p : Process β), s'.processes[i]? = some p →
      p.WorkOk s'.shared := by
    cases a with
    | start input =>
      obtain rfl := Option.some.inj hstep
      refine ⟨h.shared, fun i p hi => ?_⟩
      rcases Pool.getElem?_concat_eq_some.mp hi with hi | ⟨-, rfl⟩
      · exact (h.each i p hi).2
      · cases input <;> trivial
    | advance i choice =>
      obtain ⟨p, t, p', hi, hnext, rfl⟩ := Program.step_advance hstep
      rw [deliveryGuarded, hi, Option.all_some] at hg
      have hmoves := moves_of_next hnext
      have hq : BoundOk { s.shared with now := s.shared.now + choice.elapsed } :=
        ⟨fun id d hget => ⟨(h.shared.queue id d hget).id_lt, (h.shared.queue id d hget).token⟩,
          fun id d hget => (h.shared.count id d hget).congr rfl, h.shared.sent_get⟩
      have hp := fun claim hclaim => ((h.each i p hi).1 claim hclaim).of_le choice.elapsed
      obtain ⟨hbound, hwork⟩ := hmoves.boundOk hq hp (h.each i p hi).2.of_le hg
      refine ⟨hbound, fun j r hj => ?_⟩
      rcases (Pool.getElem?_set_eq_some hi).mp hj with ⟨rfl, rfl⟩ | ⟨hij, hj⟩
      · exact hwork
      · exact hmoves.workOk_other hg (fun claim hclaim => ((h.each j r hj).1 claim hclaim).of_le _)
          (h.pair i j p r hij hi hj) (h.each j r hj).2.of_le
  exact ⟨hall.1, fun i p hi => ⟨hclaims'.each i p hi, hall.2 i p hi⟩, hclaims'.pair⟩

/-- What the queue guarantees in the run over `as`: a delivery that is delivered or failed never
changes, a write changes a row only under its token, a row has at most one claim that has not
expired, and at most `maxDeliveryAttempts` requests are sent for a delivery. -/
structure QueueSafe (as : List (Pool.Action (Input β) Choice)) : Prop where
  final : ∀ pre mid post s s' id d, as = pre ++ (mid ++ post) →
    run (webhookService β).step (emptyService β) pre = some s →
    run (webhookService β).step s mid = some s' → s.shared.deliveries.get id = some d →
      d.isFinal = true → s'.shared.deliveries.get id = some d
  token : ∀ pre post (i : ℕ) choice s s' delivery expiresAt outcome id d,
    as = pre ++ .advance i choice :: post →
    run (webhookService β).step (emptyService β) pre = some s →
    s.processes[i]? = some (.worker (.answered delivery expiresAt outcome)) →
    (webhookService β).step s (.advance i choice) = some s' →
    s.shared.deliveries.get id = some d → s'.shared.deliveries.get id ≠ some d →
      id = delivery.id ∧ d.claimToken = some delivery.claimToken
  claim : ∀ pre post s (i j : ℕ) (claim claim' : ClaimedDelivery β × ℕ), as = pre ++ post →
    run (webhookService β).step (emptyService β) pre = some s →
    s.processes[i]?.bind Process.claim? = some claim →
    s.processes[j]?.bind Process.claim? = some claim' → claim.1.id = claim'.1.id →
    s.shared.now < claim.2 → s.shared.now < claim'.2 → i = j
  requests : ∀ pre post s id, as = pre ++ post →
    run (webhookService β).step (emptyService β) pre = some s →
      s.shared.sent.count id ≤ maxDeliveryAttempts

theorem token_of_step {i : ℕ} {choice : Choice} {expiresAt : ℕ} {outcome : DeliveryAttemptOutcome}
    (hi : s.processes[i]? = some (.worker (.answered delivery expiresAt outcome)))
    (hstep : (webhookService β).step s (.advance i choice) = some s')
    (hget : s.shared.deliveries.get id = some d) (hchanged : s'.shared.deliveries.get id ≠ some d) :
    id = delivery.id ∧ d.claimToken = some delivery.claimToken := by
  obtain ⟨p, t, p', hi', hnext, rfl⟩ := Program.step_advance hstep
  obtain rfl := Option.some.inj (hi.symm.trans hi')
  obtain ⟨⟨u, w'⟩, hnext', heq⟩ := Option.map_eq_some_iff.mp hnext
  cases heq
  simp only [Worker.next] at hnext'
  split at hnext'
  · cases hnext'
    exact claimToken_of_finalize (q := { s.shared with now := s.shared.now + choice.elapsed })
      hget hchanged
  · cases hnext'
    exact absurd hget hchanged
  · cases hnext'
    exact absurd hget hchanged
  · cases hnext'

/-- **The delivery queue is safe**, in a run in which each request is sent under the claim that is
stored, and no claim is taken over that has sent a request which is not counted. -/
theorem deliveries_safe {as : List (Pool.Action (Input β) Choice)}
    (h : StepsOk (webhookService β).step (fun s a => deliveryGuarded s a = true) (emptyService β) as) :
    QueueSafe as where
  final := by
    rintro pre mid post s s' id d - hpre hmid hget hfinal
    exact get_of_run hpre hmid hget hfinal
  token := by
    rintro pre post i choice s s' delivery expiresAt outcome id d - - hi hstep hget hchanged
    exact token_of_step hi hstep hget hchanged
  claim := by
    rintro pre post s i j claim claim' - hpre hi hj hid hlt hlt'
    exact claim_unique hpre hi hj hid hlt hlt'
  requests := by
    rintro pre post s id rfl hpre
    have hempty : Pool.Holds (boundInvariant β) (emptyService β) :=
      Pool.holds_nil ⟨fun _ _ hget => (by cases hget), fun _ _ hget => (by cases hget),
        fun _ hmem => absurd hmem List.not_mem_nil⟩
    have hholds := run_invariant_of_stepsOk (I := Pool.Holds (boundInvariant β))
      (fun t a t' ht hg hstep => bound_of_step ht hg hstep) hempty ( StepsOk.prefix h) hpre
    by_cases hmem : id ∈ s.shared.sent
    · obtain ⟨d, hget⟩ := Option.isSome_iff_exists.mp (hholds.shared.sent_get id hmem)
      have hcount := hholds.shared.count id d hget
      by_cases hprocessing : d.status = .processing
      · exact hcount.count_le.trans (hcount.attempts_lt (.inr hprocessing))
      · rw [hcount.settled hprocessing]
        exact hcount.attempts_le
    · rw [List.count_eq_zero.mpr hmem]
      exact Nat.zero_le _

/-! ### A run, and one in which workers crash -/

/-- Two workers deliver a job; the first answer is an error of the server, and the second attempt is
made by the other worker. -/
def demoRun : List (Pool.Action (Input Unit) Choice) :=
  [.start (.enqueue ()), .advance 0 ⟨0, .writes⟩, .start .worker, .start .worker,
    .advance 1 ⟨0, .claims []⟩, .advance 2 ⟨1, .claims []⟩,
    .advance 1 ⟨1, .sends 2 (.response 503)⟩, .advance 1 ⟨0, .writes⟩,
    .advance 2 ⟨60, .claims []⟩, .advance 2 ⟨1, .sends 63 (.response 200)⟩,
    .advance 2 ⟨0, .writes⟩]

theorem deliveries_safe_demo : QueueSafe demoRun := deliveries_safe (by decide)

/-- Whenever a worker writes an outcome before its claim expires, the row takes it. -/
def OutcomesCount (s : Service β) : Prop :=
  ∀ (i elapsed : ℕ) delivery expiresAt outcome,
    s.processes[i]? = some (.worker (.answered delivery expiresAt outcome)) →
    s.shared.now + elapsed < expiresAt → ∃ s' d,
      (webhookService β).step s (.advance i ⟨elapsed, .writes⟩) = some s' ∧
      s.shared.deliveries.get delivery.id = some d ∧ d.status = .processing ∧
      s'.shared.deliveries.get delivery.id = some (d.finalize (s.shared.now + elapsed) outcome)

/-- **No outcome is lost before its claim expires**, in any run. -/
theorem outcomes_count (hrun : run (webhookService β).step (emptyService β) as = some s) :
    OutcomesCount s := by
  intro i elapsed delivery expiresAt outcome hi hlt
  have hclaim := ((claims_of_run hrun).each i _ hi _ rfl).of_le elapsed
  obtain ⟨d, hget, htoken, -, hstatus⟩ := hclaim.stored hlt
  refine ⟨_, d, by rw [Program.step, hi]; rfl, hget, hstatus, ?_⟩
  simp only [Queue.finalizeDeliveryAttempt, hget, if_pos htoken, Store.get_put_self]

theorem outcomes_count_demo : ∃ s,
    run (webhookService Unit).step (emptyService Unit) demoRun.dropLast = some s ∧
      OutcomesCount s := by
  obtain ⟨s, hs⟩ := Option.isSome_iff_exists.mp
    (by decide : (run (webhookService Unit).step (emptyService Unit) demoRun.dropLast).isSome = true)
  exact ⟨s, hs, outcomes_count hs⟩

/-- A worker claims the job, sends its request, and crashes before it writes the outcome. -/
def crashes (i : ℕ) : List (Pool.Action (Input Unit) Choice) :=
  [.start .worker, .advance i ⟨deliveryClaimTtl, .claims []⟩,
    .advance i ⟨0, .sends 0 (.response 200)⟩, .advance i ⟨0, .crashes⟩]

def crashingRun : List (Pool.Action (Input Unit) Choice) :=
  [.start (.enqueue ()), .advance 0 ⟨0, .writes⟩] ++ (List.range 6).flatMap fun i => crashes (i + 1)

/-- Without the condition a delivery is sent once more than it may be attempted. -/
theorem not_queueSafe_crashing : ¬ QueueSafe crashingRun := by
  intro h
  have hrun : (run (webhookService Unit).step (emptyService Unit) crashingRun).any
      (fun s => decide (maxDeliveryAttempts < s.shared.sent.count 0)) = true := by
    decide
  obtain ⟨s, hs, hmany⟩ := (Option.any_eq_true _ _).mp hrun
  exact absurd (h.requests crashingRun [] s 0 (List.append_nil _).symm hs)
    (Nat.not_le_of_lt (of_decide_eq_true hmany))

end Pkgly.Webhooks
