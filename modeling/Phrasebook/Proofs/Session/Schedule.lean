import Mathlib.Data.List.Induction
import Phrasebook.Proofs.Session.Order

/-!
# Schedules

What happens to a session is a list of events: somebody asks for a language, or a switch gets the
answer that it waits for and goes on. Any list will do, since a switch that does not wait for just
this answer stays where it is; so what holds after every schedule holds in every interleaving of
the switches. `Session.history` keeps the sessions before and after each event.
-/

namespace Phrasebook

inductive Event where
  | request (code : String)
  | resume (generation : Nat) (answer : Answer)

/-- What surrounds a session when it is started. -/
structure Surroundings where
  World : Type
  store : PreferenceStore (StateM World)
  preferences : Option (List String)
  world : World

variable {L : Type}

namespace Surroundings

def initial (around : Surroundings) (config : Configuration L) (locked : Option String) :
    String × around.World :=
  ((Registry.ofConfiguration config).initial config.default.code locked config.remembers
    config.negotiates around.store around.preferences).run around.world

def start (around : Surroundings) (config : Configuration L) (locked : Option String) :
    Except Fault (Session L) × around.World :=
  (Session.start config locked around.store around.preferences).run around.world

end Surroundings

namespace Session

def next (s : Session L) : Event → Session L
  | .request code => (s.request code).1
  | .resume generation answer => (s.resume generation answer).getD s

def after (s : Session L) (schedule : List Event) : Session L := schedule.foldl next s

end Session

/-- An event with the sessions before and after it. -/
structure Transition (L : Type) where
  before : Session L
  event : Event
  after : Session L

namespace Session

def history (s : Session L) : List Event → List (Transition L)
  | [] => []
  | event :: rest => ⟨s, event, s.next event⟩ :: (s.next event).history rest

variable {s t : Session L} {g h : Nat} {code initial : String} {config : Configuration L}
  {locked : Option String} {around : Surroundings}

theorem after_append (s : Session L) (earlier later : List Event) :
    s.after (earlier ++ later) = (s.after earlier).after later :=
  List.foldl_append

theorem after_snoc (s : Session L) (schedule : List Event) (event : Event) :
    s.after (schedule ++ [event]) = (s.after schedule).next event :=
  after_append s schedule [event]

theorem history_append (s : Session L) (earlier later : List Event) :
    s.history (earlier ++ later) = s.history earlier ++ (s.after earlier).history later := by
  induction earlier generalizing s with
  | nil => rfl
  | cons first rest ih => exact congrArg _ (ih (s.next first))

theorem history_snoc (s : Session L) (schedule : List Event) (event : Event) :
    s.history (schedule ++ [event]) = s.history schedule ++
      [⟨s.after schedule, event, s.after (schedule ++ [event])⟩] := by
  rw [history_append, after_snoc]
  rfl

theorem map_event_history (s : Session L) (schedule : List Event) :
    (s.history schedule).map (·.event) = schedule := by
  induction schedule generalizing s with
  | nil => rfl
  | cons first rest ih => exact congrArg _ (ih (s.next first))

/-- A property that every event keeps is kept by every schedule. -/
theorem after_keep {P : Session L → Prop} (hs : P s)
    (hnext : ∀ {s : Session L}, P s → ∀ event, P (s.next event)) (schedule : List Event) :
    P (s.after schedule) := by
  induction schedule generalizing s with
  | nil => exact hs
  | cons event rest ih => exact ih (hnext hs event)

/-- Every transition of a history follows a schedule of its own. -/
theorem schedule_of_history {earlier later : List (Transition L)} {transition : Transition L}
    {schedule : List Event} (hsplit : s.history schedule = earlier ++ transition :: later) :
    ∃ start rest, schedule = start ++ transition.event :: rest ∧ earlier = s.history start ∧
      transition.before = s.after start ∧
      transition.after = (s.after start).next transition.event := by
  induction schedule generalizing s earlier with
  | nil => simp [history] at hsplit
  | cons first rest ih =>
    cases earlier with
    | nil =>
      obtain ⟨rfl, -⟩ := List.cons.inj hsplit
      exact ⟨[], rest, rfl, rfl, rfl, rfl⟩
    | cons e earlier =>
      obtain ⟨rfl, htail⟩ := List.cons.inj hsplit
      obtain ⟨start, rest', rfl, rfl, hbefore, hafter⟩ := ih htail
      exact ⟨first :: start, rest', rfl, rfl, hbefore, hafter⟩

theorem exists_of_mem_history {schedule : List Event} {transition : Transition L}
    (hmem : transition ∈ s.history schedule) : ∃ start rest event,
      schedule = start ++ event :: rest ∧
      transition = ⟨s.after start, event, (s.after start).next event⟩ := by
  obtain ⟨earlier, later, hsplit⟩ := List.append_of_mem hmem
  obtain ⟨start, rest, hschedule, -, hbefore, hafter⟩ := schedule_of_history hsplit
  refine ⟨start, rest, transition.event, hschedule, ?_⟩
  rw [← hafter, ← hbefore]

/-! ## Requests -/

def accept (s : Session L) (code : String) : Session L :=
  { s.publish { s.snapshot with ready := false, pending := some code } with
    generation := s.generation + 1
    switches := s.switches ++ [⟨code, s.generation + 1, .accepted⟩]
    woken := [] }

/-- The answers to a request for `code`, each with the session after it. -/
inductive Replies (s : Session L) (code : String) : Session L × Reply → Prop where
  | locked {only : String} : s.locked = some only → Replies s code (s, .locked)
  | unregistered : s.locked = none → s.registry.contains code = false →
      Replies s code (s, .unregistered)
  | unchanged : s.locked = none → s.registry.contains code = true → s.isCurrent code = true →
      Replies s code (s, .unchanged)
  | accepted : s.locked = none → s.registry.contains code = true → s.isCurrent code = false →
      Replies s code (s.accept code, .accepted (s.generation + 1))

theorem replies (s : Session L) (code : String) : s.Replies code (s.request code) := by
  unfold request
  cases hlocked : s.locked with
  | some only => exact .locked hlocked
  | none =>
    rw [Option.isSome_none, if_neg Bool.false_ne_true]
    split
    · next hcode => exact .unregistered hlocked (by simpa using hcode)
    · next hcode =>
      have hcode : s.registry.contains code = true := by simpa using hcode
      split
      · next hcur => exact .unchanged hlocked hcode hcur
      · next hcur => exact .accepted hlocked hcode (by simpa using hcur)

theorem request_cases (s : Session L) (code : String) :
    (s.locked = none ∧ s.registry.contains code = true ∧ s.isCurrent code = false ∧
      s.request code = (s.accept code, .accepted (s.generation + 1))) ∨
    ((s.locked.isSome ∨ s.registry.contains code = false ∨ s.isCurrent code = true) ∧
      (s.request code).1 = s ∧ ∀ generation, (s.request code).2 ≠ .accepted generation) := by
  have hreplies := s.replies code
  generalize s.request code = answer at hreplies ⊢
  cases hreplies with
  | locked h => exact .inr ⟨.inl (by rw [h]; rfl), rfl, nofun⟩
  | unregistered _ h => exact .inr ⟨.inr (.inl h), rfl, nofun⟩
  | unchanged _ _ h => exact .inr ⟨.inr (.inr h), rfl, nofun⟩
  | accepted hlocked hcode hcur => exact .inl ⟨hlocked, hcode, hcur, rfl⟩

theorem Numbered.switch?_fresh (hn : s.Numbered) : s.switch? (s.generation + 1) = none := by
  by_contra hsome
  have := hn.exists_iff.1 (Option.ne_none_iff_exists'.1 hsome)
  omega

theorem Numbered.switch?_accept (hn : s.Numbered) (code : String) (h : Nat) :
    (s.accept code).switch? h =
      if h = s.generation + 1 then some ⟨code, s.generation + 1, .accepted⟩ else s.switch? h := by
  have happend : (s.accept code).switch? h = (s.switch? h).or
      (List.find? (fun sw : Switch => sw.generation = h)
        [⟨code, s.generation + 1, .accepted⟩]) :=
    List.find?_append
  rw [happend]
  split
  · next e => subst e; rw [hn.switch?_fresh]; simp
  · next hne =>
    rw [List.find?_cons_of_neg (by simpa using Ne.symm hne), List.find?_nil, Option.or_none]

theorem Numbered.accept (hn : s.Numbered) : (s.accept code).Numbered := by
  show List.map _ (s.switches ++ [_]) = List.range' 1 (s.generation + 1)
  rw [List.map_append, hn, List.range'_1_concat, Nat.add_comm 1]
  rfl

theorem Numbered.roleBy_accept (hn : s.Numbered) {f : Switch → Role}
    (hf : f ⟨code, s.generation + 1, .accepted⟩ = .idle) :
    (s.accept code).roleBy f = s.roleBy f := by
  funext h
  unfold roleBy
  rw [hn.switch?_accept]
  by_cases hh : h = s.generation + 1
  · subst hh; simp only [↓reduceIte, hn.switch?_fresh, hf]
  · simp only [hh, ↓reduceIte]

theorem Orderly.accept (h : s.Orderly) (hcode : s.registry.contains code = true) :
    (s.accept code).Orderly where
  numbered := h.numbered.accept
  registered g sw hs := by
    rw [h.numbered.switch?_accept] at hs
    split at hs
    · obtain rfl := Option.some.inj hs
      exact Registry.contains_iff.1 hcode
    · exact h.registered g sw hs
  lock := by
    have hrole : (s.accept code).lockRole = s.lockRole := h.numbered.roleBy_accept rfl
    rw [hrole]; exact h.lock
  tended c language hl := by
    have hrole : (s.accept code).loadRole c = s.loadRole c :=
      h.numbered.roleBy_accept (by simp [Stage.loadRole])
    rw [hrole]; exact h.tended c language hl
  served g sw language hs hst hl := by
    rw [h.numbered.switch?_accept] at hs
    split at hs
    · obtain rfl := Option.some.inj hs
      cases hst
    · exact h.served g sw language hs hst hl

/-! ## Beginnings -/

/-- How a session looks that has started in `initial`. -/
inductive Opens (config : Configuration L) (locked : Option String) (initial : String) :
    Session L → Prop where
  | there {language : Language L} {content : Json} {snapshot : Snapshot} :
      (Registry.ofConfiguration config).find? initial = some language →
      language.cell.dataset = some content →
      view config.default.schema config.mode initial language.direction content false true
        = .ok snapshot →
      Opens config locked initial
        { opening config (.ofConfiguration config) locked snapshot with
          applied := [(initial, language.direction)] }
  | absent {language : Language L} {snapshot : Snapshot} :
      (Registry.ofConfiguration config).find? initial = some language →
      language.cell.dataset = none →
      view config.default.schema config.mode config.default.code config.default.direction
        config.default.schema.value false false = .ok snapshot →
      Opens config locked initial
        { opening config (.ofConfiguration config) locked
            { snapshot with pending := some initial } with
          generation := 1
          switches := [⟨initial, 1, .resolving⟩] }

theorem opens_of_openIn {language : Language L}
    (hl : (Registry.ofConfiguration config).find? initial = some language)
    (h : openIn config (.ofConfiguration config) locked initial = .ok s) :
    Opens config locked initial s := by
  unfold openIn at h
  simp only [hl, Option.map_some, Option.getD_some, Option.bind_some] at h
  split at h
  · next content hdata =>
    obtain ⟨snapshot, hview⟩ := exists_view config.default.schema config.mode initial
      language.direction content false true
    rw [hview] at h
    obtain rfl := Except.ok.inj h
    exact .there hl hdata hview
  · next hdata =>
    obtain ⟨snapshot, hview⟩ := exists_view config.default.schema config.mode config.default.code
      config.default.direction config.default.schema.value false false
    rw [hview] at h
    obtain rfl := Except.ok.inj h
    exact .absent hl hdata hview

end Session

theorem negotiate_mem (supported : List String) (preferences : Option (List String))
    (fallback : String) :
    negotiate supported preferences fallback ∈ supported ∨
      negotiate supported preferences fallback = fallback := by
  unfold negotiate
  cases h : (preferences.getD []).findSome? (accept? supported) with
  | none => exact .inr rfl
  | some code =>
    obtain ⟨tag, -, htag⟩ := List.exists_of_findSome?_eq_some h
    refine .inl ?_
    unfold accept? at htag
    split at htag
    · next hmem => obtain rfl := Option.some.inj htag; exact hmem
    · split at htag
      · next hmem => obtain rfl := Option.some.inj htag; exact hmem
      · cases htag

namespace Registry

variable {config : Configuration L}

theorem contains_default (config : Configuration L) :
    (ofConfiguration config).contains config.default.code = true :=
  contains_iff.2 ⟨_, find?_ofConfiguration_default config⟩

theorem contains_choose {registry : Registry L} {defaultCode : String}
    (hdefault : registry.contains defaultCode = true) (negotiates : Bool)
    (preferences : Option (List String)) :
    registry.contains (registry.choose defaultCode negotiates preferences) = true := by
  unfold choose
  split
  · rcases negotiate_mem registry.codes preferences defaultCode with h | h
    · obtain ⟨language, hmem, hcode⟩ := List.mem_map.1 h
      exact List.any_eq_true.2 ⟨language, hmem, by simpa using hcode⟩
    · rw [h]; exact hdefault
  · exact hdefault

end Registry

namespace Surroundings

open Session

variable {config : Configuration L} {locked : Option String} {s : Session L}

/-- How the first language of an unlocked session is picked: what was picked, and the world after
it. -/
inductive Picks (registry : Registry L) (chosen fallback : String) (around : Surroundings) :
    (remembers : Bool) → String × around.World → Prop where
  | chosen : Picks registry chosen fallback around false (chosen, around.world)
  | unreadable {fault : StoreFault} {world : around.World} :
      around.store.get languageKey around.world = (.error fault, world) →
      Picks registry chosen fallback around true (fallback, world)
  | saved {saved : Option String} {code : String} {world : around.World} :
      around.store.get languageKey around.world = (.ok saved, world) →
      saved.filter registry.contains = some code →
      Picks registry chosen fallback around true (code, world)
  | stored {saved : Option String} {world world' : around.World} :
      around.store.get languageKey around.world = (.ok saved, world) →
      saved.filter registry.contains = none →
      around.store.set languageKey chosen world = (.ok (), world') →
      Picks registry chosen fallback around true (chosen, world')
  | unwritable {saved : Option String} {fault : StoreFault} {world world' : around.World} :
      around.store.get languageKey around.world = (.ok saved, world) →
      saved.filter registry.contains = none →
      around.store.set languageKey chosen world = (.error fault, world') →
      Picks registry chosen fallback around true (fallback, world')

theorem picks_of_initial (around : Surroundings) (registry : Registry L) (defaultCode : String)
    (remembers negotiates : Bool) :
    Picks registry (registry.choose defaultCode negotiates around.preferences) defaultCode around
      remembers ((registry.initial defaultCode none remembers negotiates around.store
        around.preferences).run around.world) := by
  unfold Registry.initial
  generalize registry.choose defaultCode negotiates around.preferences = chosen
  simp only
  split
  · next h =>
    rw [h]
    simp only [StateT.run, bind, StateT.bind]
    rcases hget : around.store.get languageKey around.world with ⟨_ | saved, world⟩
    · exact .unreadable hget
    · simp only
      rcases hsaved : saved.filter registry.contains with _ | code
      · simp only [StateT.bind]
        rcases hset : around.store.set languageKey chosen world with ⟨_ | _, world'⟩
        · exact .unwritable hget hsaved hset
        · exact .stored hget hsaved hset
      · exact .saved hget hsaved
  · next h =>
    rw [Bool.not_eq_true] at h
    rw [h]
    exact .chosen

theorem picks_initial (around : Surroundings) (config : Configuration L) :
    Picks (.ofConfiguration config)
      ((Registry.ofConfiguration config).choose config.default.code config.negotiates
        around.preferences)
      config.default.code around config.remembers (around.initial config none) :=
  picks_of_initial around (.ofConfiguration config) _ _ _

theorem Picks.contains {around : Surroundings} {registry : Registry L} {chosen fallback : String}
    {remembers : Bool} {picked : String × around.World}
    (h : Picks registry chosen fallback around remembers picked)
    (hchosen : registry.contains chosen = true) (hfallback : registry.contains fallback = true) :
    registry.contains picked.1 = true := by
  cases h with
  | chosen => exact hchosen
  | unreadable _ => exact hfallback
  | saved _ hsaved => exact (Option.filter_eq_some_iff.1 hsaved).2
  | stored _ _ _ => exact hchosen
  | unwritable _ _ _ => exact hfallback

/-- The first language is registered, unless an unregistered one is locked. -/
theorem contains_initial (around : Surroundings) (config : Configuration L)
    (hlocked : ∀ code, locked = some code →
      (Registry.ofConfiguration config).contains code = true) :
    (Registry.ofConfiguration config).contains (around.initial config locked).1 = true := by
  cases locked with
  | some code => exact hlocked code rfl
  | none =>
    have hdefault := Registry.contains_default config
    exact (picks_initial around config).contains (Registry.contains_choose hdefault _ _) hdefault

/-- A session that starts is in its first language, and a locked one was not picked. -/
theorem opens_of_start {around : Surroundings} (h : (around.start config locked).1 = .ok s) :
    Opens config locked (around.initial config locked).1 s ∧
      (around.start config locked).2 = (around.initial config locked).2 := by
  unfold start Session.start at h ⊢
  dsimp only at h ⊢
  cases hbad : locked.filter fun code => !(Registry.ofConfiguration config).contains code with
  | some code => rw [hbad] at h; cases h
  | none =>
    rw [hbad] at h
    have hlocked : ∀ code, locked = some code →
        (Registry.ofConfiguration config).contains code = true := fun code hcode => by
      subst hcode
      by_contra hnot
      simp [Option.filter, hnot] at hbad
    obtain ⟨language, hl⟩ :=
      Registry.contains_iff.1 (contains_initial around config hlocked)
    exact ⟨opens_of_openIn hl h, rfl⟩

end Surroundings

namespace Session

/-! ## Order on every schedule -/

variable {s : Session L} {initial : String} {config : Configuration L} {locked : Option String}

theorem Opens.resolving (h : Opens config locked initial s) {g : Nat} {sw : Switch}
    (hs : s.switch? g = some sw) : sw = ⟨initial, g, .resolving⟩ ∧ g = s.generation := by
  have hg := generation_of_switch? hs
  cases h with
  | there hl hdata hview => cases hs
  | absent hl hdata hview =>
    obtain rfl := List.mem_singleton.1 (List.mem_of_find?_eq_some hs)
    obtain rfl : 1 = g := hg
    exact ⟨rfl, rfl⟩

theorem Opens.roleBy (h : Opens config locked initial s) {f : Switch → Role}
    (hf : ∀ g, f ⟨initial, g, .resolving⟩ = .idle) : s.roleBy f = fun _ => .idle := by
  funext g
  cases hs : s.switch? g with
  | none => unfold Session.roleBy; rw [hs]
  | some sw => rw [roleBy_of hs, (h.resolving hs).1, hf]

/-- What a session has from its configuration when it starts. -/
structure Begins (config : Configuration L) (locked : Option String) (initial : String)
    (s : Session L) : Prop where
  default : s.default = config.default
  mode : s.mode = config.mode
  locked : s.locked = locked
  remembers : s.remembers = config.remembers
  registry : s.registry = .ofConfiguration config
  lock : s.lock = {}
  written : s.written = []
  initial : ∃ language, s.registry.find? initial = some language

theorem Opens.begins (h : Opens config locked initial s) : s.Begins config locked initial := by
  cases h with
  | there hl hdata hview => exact ⟨rfl, rfl, rfl, rfl, rfl, rfl, rfl, _, hl⟩
  | absent hl hdata hview => exact ⟨rfl, rfl, rfl, rfl, rfl, rfl, rfl, _, hl⟩

theorem Opens.orderly (h : Opens config locked initial s) : s.Orderly := by
  have hbegins := h.begins
  constructor
  · cases h <;> rfl
  · intro g sw hs
    rw [(h.resolving hs).1]
    exact hbegins.initial
  · have hrole : s.lockRole = fun _ => .idle := h.roleBy fun _ => rfl
    rw [hbegins.lock, hrole]
    exact Turn.agrees_idle
  · intro c language hl
    rw [hbegins.registry] at hl
    obtain ⟨hturn, hsource⟩ := Registry.of_find?_ofConfiguration hl
    rw [Option.isSome_iff_ne_none] at hsource
    have hrole : s.loadRole c = fun _ => .idle := h.roleBy fun _ => by simp [Stage.loadRole]
    rw [hrole]
    exact ⟨hturn ▸ Turn.agrees_idle, fun _ => by rw [hturn],
      fun hnone hloader => hsource.2 hloader hnone⟩
  · intro g sw language hs hst
    rw [(h.resolving hs).1] at hst
    cases hst

theorem Orderly.next (h : s.Orderly) (event : Event) : (s.next event).Orderly := by
  cases event with
  | request code =>
    rcases s.request_cases code with ⟨-, hcode, -, hreq⟩ | ⟨-, hreq, -⟩
    · show (s.request code).1.Orderly
      rw [hreq]; exact h.accept hcode
    · show (s.request code).1.Orderly
      rw [hreq]; exact h
  | resume g answer =>
    show ((s.resume g answer).getD s).Orderly
    cases hr : s.resume g answer with
    | none => exact h
    | some t => exact h.resume hr

theorem Orderly.after (h : s.Orderly) (schedule : List Event) : (s.after schedule).Orderly :=
  after_keep h (fun h event => h.next event) schedule

end Session

/-! ## A small session -/

/-- A store that keeps the text that was set last. -/
def PreferenceStore.memory : PreferenceStore (StateM (Option String)) where
  get _ := fun saved => (.ok saved, saved)
  set _ value := fun _ => (.ok (), some value)

def Surroundings.remembering (saved : Option String) : Surroundings where
  World := Option String
  store := .memory
  preferences := none
  world := saved

/-- French is asked for, then English while French is still loading. -/
def detour : List Event :=
  [.request "fr", .resume 1 .proceed, .resume 1 (.stored true), .request "en",
    .resume 1 (.loaded (.ok (.obj []))), .resume 2 .proceed, .resume 2 (.stored true)]

end Phrasebook
