import Mathlib.Tactic.SplitIfs
import PackageRisk.Fetch
import PackageRisk.Proofs.Session

/-!
# What fetching does

Fetching only asks the network, first for the URL itself (`requested_of_fetch`). It leaves the disk
as it is, and what it ends with does not depend on the workspace (`fetch_settles`). When it fails,
it does so for a reason that is no network's: the text is no URL that can be asked for. What is
shown of a fetch is shown of its replies and of one more request (`fetchWithin_of_request`).
-/

namespace PackageRisk.Session

variable {α β : Type} {net : Network} {s : Session α} {outcome : Except Failure α}

/-- A session that ends alike in every workspace and leaves the disk as it is. -/
def Ends (s : Session α) (net : Network) (outcome : Except Failure α) : Prop :=
  ∀ w, ∃ w', s net w = (outcome, w') ∧ w'.disk = w.disk ∧ w'.home = w.home

theorem ends_pure (a : α) : (pure a : Session α).Ends net (.ok a) :=
  fun w => ⟨w, rfl, rfl, rfl⟩

theorem ends_fail (e : Failure) : (fail e : Session α).Ends net (.error e) :=
  fun w => ⟨w, rfl, rfl, rfl⟩

theorem ends_request (url : String) : (request url).Ends net (.ok (net url)) :=
  fun w => ⟨{ w with journal := .requested url :: w.journal }, rfl, rfl, rfl⟩

theorem Ends.bind {f : α → Session β} {a : α} {result : Except Failure β}
    (first : s.Ends net (.ok a)) (second : (f a).Ends net result) : (s >>= f).Ends net result := by
  intro w
  obtain ⟨w', run, disk, home⟩ := first w
  obtain ⟨w'', run', disk', home'⟩ := second w'
  exact ⟨w'', (bind_of_ok run).trans run', disk'.trans disk, home'.trans home⟩

theorem Ends.outcome_eq (ends : s.Ends net outcome) (w : Workspace) : (s net w).1 = outcome := by
  obtain ⟨w', run, -⟩ := ends w
  rw [run]

theorem Ends.unique {other : Except Failure α} (ends : s.Ends net outcome)
    (ends' : s.Ends net other) : outcome = other := by
  rw [← ends.outcome_eq default, ends'.outcome_eq default]

/-- A session that asks nothing of its workspace and fails only in ways of a kind. -/
def SettlesIn (s : Session α) (net : Network) (kind : Failure → Prop) : Prop :=
  ∃ outcome, s.Ends net outcome ∧ ∀ e, outcome = .error e → kind e

/-- A session that asks nothing of its workspace and fails with faults of values only. -/
def Settles (s : Session α) (net : Network) : Prop :=
  s.SettlesIn net fun e => ∃ cause, e = .fault cause

variable {kind : Failure → Prop}

theorem settlesIn_pure (a : α) : (pure a : Session α).SettlesIn net kind :=
  ⟨_, ends_pure a, fun _ same => by cases same⟩

theorem settlesIn_fail {e : Failure} (ofKind : kind e) : (fail e : Session α).SettlesIn net kind :=
  ⟨_, ends_fail _, fun _ same => Except.error.inj same ▸ ofKind⟩

theorem settlesIn_request_bind {url : String} {f : Reply → Session α}
    (settles : (f (net url)).SettlesIn net kind) : (request url >>= f).SettlesIn net kind := by
  obtain ⟨outcome, ends, failures⟩ := settles
  exact ⟨outcome, (ends_request url).bind ends, failures⟩

theorem SettlesIn.mono {other : Failure → Prop} (settles : s.SettlesIn net kind)
    (weaker : ∀ e, kind e → other e) : s.SettlesIn net other := by
  obtain ⟨outcome, ends, failures⟩ := settles
  exact ⟨outcome, ends, fun e failed => weaker e (failures e failed)⟩

/-- The failure of a response to a request that has no complete URL. -/
def IsWrongValue (e : Failure) : Prop := ∃ detail, e = .fault (.wrongValue detail)

section Requests

variable {P : Session Reply → Prop} (answer : ∀ url, P (pure (net url)))
  (broken : ∀ detail, P (pure (.broken detail)))
  (wrong : ∀ detail, P (fail (.fault (.wrongValue detail))))
  (asks : ∀ url f, P (f (net url)) → P (request url >>= f))

include answer broken wrong asks

omit asks in
/-- Fetching starts with a request for the reference. -/
theorem fetchWithin_of_next {follow : Bool} {n : Nat}
    (later : ∀ m next, n = m + 1 → P (fetchWithin follow m next)) (r : Url.Reference) :
    ∃ f, fetchWithin follow n r = request r.text >>= f ∧ P (f (net r.text)) := by
  have direct := answer r.text
  unfold fetchWithin
  refine ⟨_, rfl, ?_⟩
  split
  · split
    · exact wrong _
    · split
      · split
        · exact broken _
        · split
          · exact direct
          · cases n with
            | zero => exact broken _
            | succ m => exact later m _ rfl
      · exact direct
  · exact direct

/-- What holds of the answers of a network, of broken replies and of the failure of a response to a
request without a complete URL, and of a request if it holds of what follows, holds of what follows
the first request of fetching. -/
theorem fetchWithin_of_request (follow : Bool) (n : Nat) (r : Url.Reference) :
    ∃ f, fetchWithin follow n r = request r.text >>= f ∧ P (f (net r.text)) := by
  induction n generalizing r with
  | zero => exact fetchWithin_of_next answer broken wrong (fun _ _ same => by cases same) r
  | succ n ih =>
    refine fetchWithin_of_next answer broken wrong (fun m next same => ?_) r
    obtain ⟨f, first, holds⟩ := ih next
    rw [← Nat.succ.inj same, first]
    exact asks _ f holds

end Requests

theorem fetchWithin_settles (follow : Bool) (n : Nat) (r : Url.Reference) :
    (fetchWithin follow n r).SettlesIn net IsWrongValue := by
  obtain ⟨f, first, settles⟩ := fetchWithin_of_request (P := (SettlesIn · net IsWrongValue))
    (fun _ => settlesIn_pure _) (fun _ => settlesIn_pure _) (fun _ => settlesIn_fail ⟨_, rfl⟩)
    (fun _ _ => settlesIn_request_bind) follow n r
  rw [first]
  exact settlesIn_request_bind settles

theorem fetch_of_parse_error {follow : Bool} {url why : String}
    (refused : Url.Reference.parse url = .error why) :
    fetch follow url = fail (.fault (.notUrl why)) := by
  rw [fetch, refused]

/-- Where the text is a URL, fetching fails only where it is none that can be asked for. -/
theorem fetch_settles_of_parse_ok {follow : Bool} {url : String} {r : Url.Reference}
    (parsed : Url.Reference.parse url = .ok r) : (fetch follow url).SettlesIn net IsWrongValue := by
  rw [fetch, parsed]
  exact fetchWithin_settles follow redirectLimit _

/-- Fetching ends alike in every workspace, and fails only where the text of a place is no URL
that can be asked for. -/
theorem fetch_settles (follow : Bool) (url : String) : (fetch follow url).Settles net := by
  rcases parsed : Url.Reference.parse url with why | r
  · rw [fetch_of_parse_error parsed]
    exact settlesIn_fail ⟨_, rfl⟩
  · refine (fetch_settles_of_parse_ok parsed).mono ?_
    rintro e ⟨detail, rfl⟩
    exact ⟨_, rfl⟩

/-! ## Responses -/

/-- Fetching ends with a response that refers to no other place. -/
theorem fetch_of_response {follow : Bool} {url : String} {r : Url.Reference} {status : Nat}
    {chunks : List ByteArray} (parsed : Url.Reference.parse url = .ok r)
    (complete : r.toRequest.isComplete = true)
    (replies : net r.toRequest.text = .response status none chunks) :
    (fetch follow url).Ends net (.ok (.response status none chunks)) := by
  have asks : (request r.toRequest.text).Ends net (.ok (.response status none chunks)) :=
    replies ▸ ends_request _
  unfold fetch
  rw [parsed]
  dsimp only
  unfold fetchWithin
  refine asks.bind ?_
  dsimp only
  rw [if_neg (by simp [complete])]
  cases isRedirect status <;> exact ends_pure _

/-- A session that hands on what the network answers: each response is the one to some request. -/
def Relays (s : Session Reply) (net : Network) : Prop :=
  ∀ w status location chunks, (s net w).1 = .ok (.response status location chunks) →
    ∃ url, net url = .response status location chunks

theorem relays_answer (net : Network) (url : String) :
    (pure (net url) : Session Reply).Relays net :=
  fun _ _ _ _ same => ⟨url, Except.ok.inj same⟩

theorem relays_broken (detail : String) : (pure (.broken detail) : Session Reply).Relays net :=
  fun _ _ _ _ same => by cases same

theorem relays_fail (e : Failure) : (fail e : Session Reply).Relays net :=
  fun _ _ _ _ same => by cases same

theorem relays_request_bind {url : String} {f : Reply → Session Reply}
    (relays : (f (net url)).Relays net) : (request url >>= f).Relays net := fun w =>
  relays { w with journal := .requested url :: w.journal }

theorem fetchWithin_relays (follow : Bool) (n : Nat) (r : Url.Reference) :
    (fetchWithin follow n r).Relays net := by
  obtain ⟨f, first, relays⟩ := fetchWithin_of_request (P := (Relays · net)) (relays_answer net)
    relays_broken (fun _ => relays_fail _) (fun _ _ => relays_request_bind) follow n r
  rw [first]
  exact relays_request_bind relays

/-- A response that is fetched is what the network answers to some request. -/
theorem fetch_relays (follow : Bool) (url : String) : (fetch follow url).Relays net := by
  rcases parsed : Url.Reference.parse url with why | r
  · rw [fetch_of_parse_error parsed]
    exact relays_fail _
  · rw [fetch, parsed]
    exact fetchWithin_relays follow redirectLimit _

/-! ## The journal -/

/-- A session after which the journal tells what it told before. -/
def Recalls (s : Session α) (net : Network) : Prop :=
  ∀ w, w.journal <:+ (s net w).2.journal

theorem recalls_pure (a : α) : (pure a : Session α).Recalls net :=
  fun _ => List.suffix_rfl

theorem recalls_request_bind {url : String} {f : Reply → Session α}
    (recalls : (f (net url)).Recalls net) : (request url >>= f).Recalls net := fun w =>
  (List.suffix_cons _ w.journal).trans (recalls { w with journal := .requested url :: w.journal })

/-- A URL that is fetched is asked for in the form of a request. -/
theorem requested_of_fetch {url : String} {r : Url.Reference}
    (parsed : Url.Reference.parse url = .ok r) (follow : Bool) (net : Network) (w : Workspace) :
    .requested r.toRequest.text ∈ (fetch follow url net w).2.journal := by
  obtain ⟨f, first, recalls⟩ := fetchWithin_of_request (P := (Recalls · net))
    (fun _ => recalls_pure _) (fun _ => recalls_pure _) (fun _ _ => List.suffix_rfl)
    (fun _ _ => recalls_request_bind) follow redirectLimit r.toRequest
  rw [fetch, parsed]
  dsimp only
  rw [first]
  have told := recalls { w with journal := .requested r.toRequest.text :: w.journal }
  exact told.subset List.mem_cons_self

end PackageRisk.Session
