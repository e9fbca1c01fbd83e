import Phrasebook.Proofs.Session.Persistence
import Phrasebook.Rehearsal

/-!
# A rehearsal is a run of its session

Scripts, gates and a clock decide what happens in a rehearsal and in which order. Its session only
ever sees requests and answers, so a rehearsal takes it along some schedule, and what holds of a
session after every schedule holds of it. The store goes with it: it holds what was written last.
-/

namespace Phrasebook

/-- What the last write that succeeded has stored. -/
def lastSaved {L : Type} (history : List (Transition L)) : Option String :=
  (saved history).getLast?.map (·.code)

theorem lastSaved_append {L : Type} (earlier later : List (Transition L)) :
    lastSaved (earlier ++ later) = (lastSaved later).or (lastSaved earlier) := by
  simp only [lastSaved, saved, writes, List.filterMap_append, List.filter_append,
    List.getLast?_append, Option.map_or]

theorem lastSaved_singleton {L : Type} (transition : Transition L) :
    lastSaved [transition] = (transition.write?.filter (·.success)).map (·.code) := by
  unfold lastSaved saved writes
  cases hw : transition.write? with
  | none => rw [List.filterMap_cons_none hw]; rfl
  | some w =>
    rw [List.filterMap_cons_some hw, List.filterMap_nil]
    cases hsuccess : w.success with
    | false =>
      rw [List.filter_cons_of_neg (by simp [hsuccess]), Option.filter_some_neg hsuccess]
      rfl
    | true =>
      rw [List.filter_cons_of_pos hsuccess, Option.filter_some_pos hsuccess]
      rfl

theorem ScriptedStore.value?_put (store : ScriptedStore) (key value : String) :
    (store.put key value).value? key = some value :=
  List.lookup_cons_self

theorem ScriptedStore.run_set (store : ScriptedStore) (key value : String) :
    (preferences.set key value).run store =
      match store.nextSet.1.outcome with
      | some fault => (.error fault, store.nextSet.2)
      | none => (.ok (), store.nextSet.2.put key value) := by
  rcases hnext : store.nextSet with ⟨⟨pauses, outcome⟩, rest⟩
  cases outcome with
  | none => simp [preferences, hnext]; rfl
  | some fault => simp [preferences, hnext]; rfl

/-- The scripted store holds what was set last, whatever its script says. -/
theorem ScriptedStore.shows_preferences : preferences.Shows (·.value? languageKey) where
  stored := by
    intro code store store' h
    have hrun := (run_set store languageKey code).symm.trans h
    split at hrun
    · cases hrun
    · obtain ⟨-, rfl⟩ := Prod.mk.inj hrun
      exact value?_put _ languageKey code
  failed := by
    intro code fault store store' h
    have hrun := (run_set store languageKey code).symm.trans h
    split at hrun
    · obtain ⟨-, rfl⟩ := Prod.mk.inj hrun
      rfl
    · cases hrun

namespace Rehearsal

variable {r middle later : Rehearsal} {generation : Nat} {answer : Answer}

/-- The session of `later` is what a schedule makes of the session of `r`, and its store holds what
was stored meanwhile, if anything was. -/
def Plays (r later : Rehearsal) : Prop :=
  ∃ schedule, later.session = r.session.after schedule ∧
    later.store.value? languageKey =
      (lastSaved (r.session.history schedule)).or (r.store.value? languageKey)

def Advance.rehearsal : Advance → Rehearsal
  | running r => r
  | waiting r => r

theorem Plays.of_eq (hsession : later.session = r.session)
    (hstore : later.store.value? languageKey = r.store.value? languageKey) : r.Plays later :=
  ⟨[], hsession, hstore⟩

theorem Plays.refl (r : Rehearsal) : r.Plays r := .of_eq rfl rfl

theorem Plays.trans (h : r.Plays middle) (h' : middle.Plays later) : r.Plays later := by
  obtain ⟨first, hsession, hstore⟩ := h
  obtain ⟨second, hsession', hstore'⟩ := h'
  refine ⟨first ++ second, ?_, ?_⟩
  · rw [Session.after_append, ← hsession, hsession']
  · rw [Session.history_append, lastSaved_append, ← hsession, hstore', hstore, Option.or_assoc]

theorem Plays.of_event (event : Event) (hsession : later.session = r.session.next event)
    (hstore : later.store.value? languageKey =
      (lastSaved [⟨r.session, event, r.session.next event⟩]).or (r.store.value? languageKey)) :
    r.Plays later :=
  ⟨[event], hsession, hstore⟩

theorem Plays.of_resume
    (hresume : r.session.resume generation answer = some later.session)
    (hstore : later.store.value? languageKey =
      (lastSaved [⟨r.session, .resume generation answer,
        r.session.next (.resume generation answer)⟩]).or (r.store.value? languageKey)) :
    r.Plays later :=
  .of_event _ (by rw [Session.next, hresume, Option.getD_some]) hstore

theorem plays_foldl {α : Type} {f : Rehearsal → α → Rehearsal}
    (h : ∀ (r : Rehearsal) (a : α), r.Plays (f r a)) (list : List α) (r : Rehearsal) :
    r.Plays (list.foldl f r) := by
  induction list generalizing r with
  | nil => exact .refl r
  | cons a rest ih => exact (h r a).trans (ih (f r a))

/-! ## Jobs -/

theorem session_move (r : Rehearsal) (session : Session Nat) :
    (r.move session).session = session := by
  unfold move
  split <;> rfl

theorem store_move (r : Rehearsal) (session : Session Nat) : (r.move session).store = r.store := by
  unfold move
  split <;> rfl

theorem plays_request (r : Rehearsal) (code : String) :
    r.Plays (r.move (r.session.request code).1) := by
  refine .of_event (.request code) (session_move r _) ?_
  rw [store_move]
  rfl

theorem resume?_eq_some (h : r.resume? generation answer = some later) :
    r.session.resume generation answer = some later.session ∧ later.store = r.store := by
  obtain ⟨session, hresume, rfl⟩ := Option.map_eq_some_iff.1 h
  have hsession := session_move (r.enqueue (session.woken.map .switch)) session
  have hstore := store_move (r.enqueue (session.woken.map .switch)) session
  refine ⟨?_, ?_⟩
  · rw [hresume]
    dsimp only
    split <;> exact congrArg some hsession.symm
  · dsimp only
    split <;> exact hstore

theorem plays_resume? (h : r.resume? generation .proceed = some later) : r.Plays later := by
  obtain ⟨hresume, hstore⟩ := resume?_eq_some h
  refine .of_resume hresume ?_
  rw [hstore]
  rfl

/-- An answer stores nothing unless it is that of a write that succeeded. -/
theorem lastSaved_resume {session : Session Nat}
    (h : ∀ code, answer = .stored true → session.errand? generation ≠ some (.write code)) :
    lastSaved [⟨session, .resume generation answer, session.next (.resume generation answer)⟩] =
      none := by
  rw [lastSaved_singleton]
  cases answer with
  | proceed => rfl
  | loaded result => rfl
  | stored success =>
    unfold Transition.write?
    dsimp only
    split
    · next code herrand =>
      cases success with
      | false => rfl
      | true => exact absurd herrand (h code rfl)
    · rfl

/-- The store is written just when the session hears that it was. -/
theorem plays_deliver? {u : Underway} (h : r.deliver? u = some later) : r.Plays later := by
  unfold deliver? at h
  dsimp only at h
  split at h
  · next code hanswer herrand =>
    obtain ⟨hresume, hstore⟩ := resume?_eq_some h
    refine .of_resume hresume ?_
    rw [hstore, hanswer, lastSaved_singleton]
    simp only [Transition.write?, herrand]
    exact ScriptedStore.value?_put r.store languageKey code
  · next hother =>
    obtain ⟨hresume, hstore⟩ := resume?_eq_some h
    refine .of_resume hresume ?_
    rw [hstore, lastSaved_resume hother]
    rfl

theorem plays_begin (r : Rehearsal) (generation : Nat) (errand : Errand Nat) :
    r.Plays (r.begin generation errand) := by
  cases errand with
  | write code => exact .of_eq rfl rfl
  | load loader => exact .of_eq rfl rfl
  | fade => exact .of_eq rfl rfl

theorem plays_meet (r : Rehearsal) (generation : Nat) (pause : Pause) :
    r.Plays (r.meet generation pause).rehearsal := by
  cases pause with
  | gate name =>
    dsimp only [meet]
    split <;> exact .of_eq rfl rfl
  | sleep ms =>
    dsimp only [meet]
    split <;> exact .of_eq rfl rfl

theorem plays_advance (r : Rehearsal) (generation : Nat) :
    r.Plays (r.advance generation).rehearsal := by
  unfold advance
  split
  · next u hu =>
    split
    · next pause rest hpauses =>
      exact Plays.trans (.of_eq rfl rfl) (plays_meet _ generation pause)
    · next hpauses =>
      split
      · next hdeliver => exact plays_deliver? hdeliver
      · exact .refl r
  · split
    · next errand herrand => exact plays_begin r generation errand
    · split
      · next hresume => exact plays_resume? hresume
      · exact .refl r

theorem plays_drive (generation steps : Nat) (r : Rehearsal) :
    r.Plays (drive generation steps r) := by
  induction steps generalizing r with
  | zero => exact .refl r
  | succ steps ih =>
    have hadvance := plays_advance r generation
    unfold drive
    split
    · next next hnext =>
      rw [hnext] at hadvance
      exact hadvance.trans (ih next)
    · next next hnext =>
      rw [hnext] at hadvance
      exact hadvance

theorem plays_runJob (r : Rehearsal) (job : Job) : r.Plays (r.runJob job) := by
  cases job with
  | call id code =>
    have hrequest := plays_request r code
    dsimp only [runJob]
    split
    · next session generation heq =>
      rw [heq] at hrequest
      exact (hrequest.trans (.of_eq rfl rfl)).trans (plays_drive generation _ _)
    · exact .of_eq rfl rfl
  | switch generation => exact plays_drive generation _ r
  | settle id =>
    dsimp only [runJob]
    split <;> exact .of_eq rfl rfl

theorem plays_runQueue (jobs : Nat) (r : Rehearsal) : r.Plays (runQueue jobs r) := by
  induction jobs generalizing r with
  | zero => exact .refl r
  | succ jobs ih =>
    unfold runQueue
    split
    · exact .refl r
    · next job rest _ =>
      have hrest : r.Plays { r with queue := rest } := .of_eq rfl rfl
      exact (hrest.trans (plays_runJob _ job)).trans (ih _)

theorem plays_drain (r : Rehearsal) : r.Plays r.drain := plays_runQueue _ r

/-! ## Steps -/

theorem plays_tick (r : Rehearsal) : r.Plays r.tick := by
  have hclock : r.Plays { r with clock := r.clock + 1 } := .of_eq rfl rfl
  have hwake (r : Rehearsal) : r.Plays r.wakeSleepers := .of_eq rfl rfl
  exact ((hclock.trans (plays_drain _)).trans (hwake _)).trans (plays_drain _)

theorem plays_step (r : Rehearsal) (step : Step) : r.Plays (r.step step) := by
  cases step with
  | request code =>
    have hrequest := plays_request r code
    dsimp only [Rehearsal.step]
    split
    · next session generation heq =>
      rw [heq] at hrequest
      exact hrequest.trans (.of_eq rfl rfl)
    · exact .refl r
  | advance ms => exact plays_foldl (fun r _ => plays_tick r) _ r
  | _ => exact .of_eq rfl rfl

/-- A rehearsal of some steps. Each comes with whether everything runs that can before the news are
reported. -/
def perform (r : Rehearsal) (steps : List (Step × Bool)) : Rehearsal :=
  steps.foldl (fun r (step, drains) =>
    (if drains then (r.step step).drain else r.step step).report.2) r

theorem plays_perform (r : Rehearsal) (steps : List (Step × Bool)) :
    r.Plays (r.perform steps) := by
  refine plays_foldl (fun r ⟨step, drains⟩ => ?_) steps r
  have hstep := plays_step r step
  have hreport (r : Rehearsal) : r.Plays r.report.2 := .of_eq rfl rfl
  cases drains with
  | false => exact hstep.trans (hreport _)
  | true => exact (hstep.trans (plays_drain _)).trans (hreport _)

/-! ## From the start -/

def around (store : ScriptedStore) (preferences : Option (List String)) : Surroundings where
  World := ScriptedStore
  store := ScriptedStore.preferences
  preferences
  world := store

/-- **A rehearsal is a run of its session**: whatever its steps, scripts and gates, they take the
session that was started along a schedule, and the store holds what was written last. -/
theorem exists_schedule {config : Configuration Nat} {loaders : List LoaderScript}
    {locked : Option String} {store : ScriptedStore} {preferences : Option (List String)}
    (h : start config loaders locked store preferences = .ok r) (steps : List (Step × Bool)) :
    ∃ s schedule, ((around store preferences).start config locked).1 = .ok s ∧
      (r.perform steps).session = s.after schedule ∧
      (r.perform steps).store.value? languageKey =
        (lastSaved (s.history schedule)).or
          (((around store preferences).start config locked).2.value? languageKey) := by
  obtain ⟨schedule, hsession, hstore⟩ := plays_perform r steps
  rcases hstart : (around store preferences).start config locked with ⟨started, world⟩
  have hrun : (Session.start config locked ScriptedStore.preferences preferences).run store =
    (started, world) := hstart
  simp only [start, hrun] at h
  cases started with
  | error fault => cases h
  | ok s =>
    obtain rfl := Except.ok.inj h
    exact ⟨s, schedule, rfl, hsession, hstore⟩

end Rehearsal

end Phrasebook
