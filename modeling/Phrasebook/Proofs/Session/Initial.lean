import Phrasebook.Proofs.Session.Convergence

/-!
# The first language and the store

Whatever is stored, whatever the host prefers and whichever operation of the store fails, a session
starts in a registered language. `PreferenceStore.recorded` lists what is done to a store: at most
one text is read, and at most one is written after it. If both succeed the store holds the language
that the session starts in, so the next session starts in it again (`Registry.resolves_initial`).
-/

namespace Phrasebook

variable {L World : Type}

/-- An operation of a store, and whether it succeeded. -/
inductive Access where
  | read (key : String) (success : Bool)
  | write (key text : String) (success : Bool)
  deriving DecidableEq, Repr

def Access.success : Access → Bool
  | read _ success => success
  | write _ _ success => success

/-! ## Recorded stores -/

namespace PreferenceStore

/-- The store with a list of its operations, oldest first. -/
def recorded (store : PreferenceStore (StateM World)) :
    PreferenceStore (StateM (World × List Access)) where
  get key := fun (world, log) =>
    let (result, world') := store.get key world
    (result, (world', log ++ [.read key result.isOk]))
  set key text := fun (world, log) =>
    let (result, world') := store.set key text world
    (result, (world', log ++ [.write key text result.isOk]))

/-- In each world a store has a content for the language. That is what is read, a code of the
registry that is written becomes it, and nothing else changes it. -/
structure Holds (store : PreferenceStore (StateM World)) (registry : Registry L)
    (content : World → Option String) : Prop where
  read : ∀ {saved : Option String} {world world' : World},
    store.get languageKey world = (.ok saved, world') →
      saved = content world ∧ content world' = content world
  unread : ∀ {fault : StoreFault} {world world' : World},
    store.get languageKey world = (.error fault, world') → content world' = content world
  written : ∀ {code : String} {world world' : World}, registry.contains code = true →
    store.set languageKey code world = (.ok (), world') → content world' = some code
  unwritten : ∀ {code : String} {fault : StoreFault} {world world' : World},
    registry.contains code = true →
    store.set languageKey code world = (.error fault, world') → content world' = content world

variable {store : PreferenceStore (StateM World)} {registry : Registry L}
  {content : World → Option String} {world : World} {log : List Access}

theorem of_recorded_get {key : String} {result : Except StoreFault (Option String)}
    {last : World × List Access} (h : store.recorded.get key (world, log) = (result, last)) :
    store.get key world = (result, last.1) ∧ last.2 = log ++ [.read key result.isOk] := by
  obtain ⟨rfl, rfl⟩ := Prod.mk.inj h
  exact ⟨rfl, rfl⟩

theorem of_recorded_set {key text : String} {result : Except StoreFault Unit}
    {last : World × List Access} (h : store.recorded.set key text (world, log) = (result, last)) :
    store.set key text world = (result, last.1) ∧
      last.2 = log ++ [.write key text result.isOk] := by
  obtain ⟨rfl, rfl⟩ := Prod.mk.inj h
  exact ⟨rfl, rfl⟩

end PreferenceStore

namespace Registry

variable {registry : Registry L} {defaultCode chosen : String} {remembers negotiates : Bool}
  {store : PreferenceStore (StateM World)} {preferences : Option (List String)}
  {world : World} {content : World → Option String}

/-- Recording does not change what is picked, nor the world after it. -/
theorem initial_recorded (registry : Registry L) (defaultCode : String)
    (remembers negotiates : Bool) (store : PreferenceStore (StateM World))
    (preferences : Option (List String)) (world : World) (log : List Access) :
    ((registry.initial defaultCode none remembers negotiates store.recorded preferences).run
        (world, log)).map id Prod.fst =
      (registry.initial defaultCode none remembers negotiates store preferences).run world := by
  unfold initial
  generalize registry.choose defaultCode negotiates preferences = chosen
  cases remembers with
  | false => rfl
  | true =>
    simp only [StateT.run, bind, StateT.bind, PreferenceStore.recorded, ↓reduceIte]
    rcases store.get languageKey world with ⟨_ | saved, world'⟩
    · rfl
    · simp only
      rcases saved.filter registry.contains with _ | code
      · simp only [StateT.bind]
        rcases store.set languageKey chosen world' with ⟨_ | _, last⟩ <;> rfl
      · rfl

theorem initial_of_get {code : String} {world' : World}
    (hget : store.get languageKey world = (.ok (some code), world'))
    (hcode : registry.contains code = true) (defaultCode : String) (negotiates : Bool)
    (preferences : Option (List String)) :
    (registry.initial defaultCode none true negotiates store preferences).run world
      = (code, world') := by
  have hsaved : (some code).filter registry.contains = some code :=
    Option.filter_eq_some_iff.2 ⟨rfl, hcode⟩
  simp only [initial, StateT.run, bind, StateT.bind, ↓reduceIte, hget, hsaved]
  rfl

/-- How the first language `code` is resolved on a store: the world after it, and what was done to
the store meanwhile. -/
structure Resolves (registry : Registry L) (defaultCode chosen : String) (remembers : Bool)
    (store : PreferenceStore (StateM World)) (world : World) (code : String) (world' : World)
    (log : List Access) : Prop where
  contains : registry.contains code = true
  untouched : remembers = false → log = [] ∧ world' = world
  /-- One text is read, and if no registered language is read, what was chosen is written. -/
  accesses : remembers = true → ∃ success more, log = .read languageKey success :: more ∧
    (more = [] ∨ success = true ∧ ∃ written, more = [.write languageKey chosen written])
  agrees : remembers = true → (∀ access ∈ log, access.success = true) →
    ∀ content, store.Holds registry content → content world' = some code
  degrades : (∃ access ∈ log, access.success = false) → code = defaultCode ∧
    ∀ content, store.Holds registry content → content world' = content world

theorem resolves_of_picks {code : String} {world' : World} {log : List Access}
    (hchosen : registry.contains chosen = true) (hdefault : registry.contains defaultCode = true)
    (h : Surroundings.Picks registry chosen defaultCode
      ⟨World × List Access, store.recorded, preferences, (world, [])⟩ remembers
      (code, (world', log))) :
    Resolves registry defaultCode chosen remembers store world code world' log := by
  have hcode := h.contains hchosen hdefault
  cases h with
  | chosen => exact ⟨hcode, fun _ => ⟨rfl, rfl⟩, nofun, nofun, nofun⟩
  | unreadable hget =>
    obtain ⟨hget, rfl⟩ := PreferenceStore.of_recorded_get hget
    refine ⟨hcode, nofun, fun _ => ⟨_, _, rfl, .inl rfl⟩, fun _ hall => ?_, fun _ => ⟨rfl, ?_⟩⟩
    · cases hall _ (List.mem_singleton_self _)
    · exact fun content hstore => hstore.unread hget
  | saved hget hsaved =>
    obtain ⟨hget, rfl⟩ := PreferenceStore.of_recorded_get hget
    obtain ⟨rfl, -⟩ := Option.filter_eq_some_iff.1 hsaved
    refine ⟨hcode, nofun, fun _ => ⟨_, _, rfl, .inl rfl⟩, fun _ _ content hstore => ?_, ?_⟩
    · obtain ⟨hread, hsame⟩ := hstore.read hget
      rw [hsame, hread]
    · rintro ⟨access, hmem, hfailed⟩
      obtain rfl := List.mem_singleton.1 hmem
      cases hfailed
  | @stored saved last _ hget _ hset =>
    obtain ⟨between, log⟩ := last
    obtain ⟨-, rfl⟩ := PreferenceStore.of_recorded_get hget
    obtain ⟨hset, rfl⟩ := PreferenceStore.of_recorded_set hset
    refine ⟨hcode, nofun, fun _ => ⟨_, _, rfl, .inr ⟨rfl, _, rfl⟩⟩,
      fun _ _ content hstore => ?_, ?_⟩
    · exact hstore.written hchosen hset
    · rintro ⟨access, hmem, hfailed⟩
      rcases List.mem_pair.1 hmem with rfl | rfl <;> cases hfailed
  | @unwritable saved fault last _ hget _ hset =>
    obtain ⟨between, log⟩ := last
    obtain ⟨hget, rfl⟩ := PreferenceStore.of_recorded_get hget
    obtain ⟨hset, rfl⟩ := PreferenceStore.of_recorded_set hset
    refine ⟨hcode, nofun, fun _ => ⟨_, _, rfl, .inr ⟨rfl, _, rfl⟩⟩, fun _ hall => ?_,
      fun _ => ⟨rfl, fun content hstore => ?_⟩⟩
    · cases hall _ (List.mem_append_right _ (List.mem_singleton_self _))
    · exact (hstore.unwritten hchosen hset).trans (hstore.read hget).2

theorem initial_of_content {code : String} (hstore : store.Remembers content)
    (hcontent : content world = some code) (hcode : registry.contains code = true)
    (defaultCode : String) (negotiates : Bool) (preferences : Option (List String)) :
    ((registry.initial defaultCode none true negotiates store preferences).run world).1 = code := by
  obtain ⟨next, hget, -⟩ := hstore.get world
  rw [hcontent] at hget
  rw [initial_of_get hget hcode]

/-- **The first language is registered, and the store agrees with it**, whatever is stored and
whichever operation of the store fails. A store that never fails and remembers what was set last
makes the next session start in the same language, whatever the host prefers then. -/
theorem resolves_initial (registry : Registry L) {defaultCode : String}
    (hdefault : registry.contains defaultCode = true) (remembers negotiates : Bool)
    (store : PreferenceStore (StateM World)) (preferences : Option (List String)) (world : World) :
    ∃ code world' log,
      (registry.initial defaultCode none remembers negotiates store preferences).run world
        = (code, world') ∧
      (registry.initial defaultCode none remembers negotiates store.recorded preferences).run
        (world, []) = (code, (world', log)) ∧
      Resolves registry defaultCode (registry.choose defaultCode negotiates preferences) remembers
        store world code world' log ∧
      (remembers = true → ∀ content, store.Remembers content → ∀ negotiates' preferences',
        ((registry.initial defaultCode none true negotiates' store preferences').run world').1
          = code) := by
  have hplain := initial_recorded registry defaultCode remembers negotiates store preferences world
    []
  have hpicks := Surroundings.picks_of_initial
    ⟨World × List Access, store.recorded, preferences, (world, [])⟩ registry defaultCode remembers
    negotiates
  have hstored := Surroundings.picks_of_initial ⟨World, store, preferences, world⟩ registry
    defaultCode remembers negotiates
  simp only at hpicks hstored
  rw [← hplain] at hstored ⊢
  generalize (registry.initial defaultCode none remembers negotiates store.recorded preferences).run
    (world, []) = picked at hpicks hstored ⊢
  obtain ⟨code, world', log⟩ := picked
  have hresolves := resolves_of_picks (contains_choose hdefault _ _) hdefault hpicks
  refine ⟨code, world', log, rfl, rfl, hresolves, ?_⟩
  rintro rfl content hstore negotiates' preferences'
  exact initial_of_content hstore (hstored.content_eq hstore) hresolves.contains _ _ _

/-- What is stored is not registered, so French is chosen and stored; a host without storage gets
the default language. -/
theorem resolves_initial_bilingual :
    (ofConfiguration Configuration.bilingual).contains "en" = true ∧
      (∃ log, Resolves (ofConfiguration Configuration.bilingual) "en" "fr" true .memory (some "de")
          "fr" (some "fr") log ∧ (∀ access ∈ log, access.success = true) ∧
        ∀ negotiates preferences, (((ofConfiguration Configuration.bilingual).initial "en" none true
          negotiates .memory preferences).run (some "fr")).1 = "fr") ∧
      ∃ log, Resolves (ofConfiguration Configuration.bilingual) "en" "fr" true .unavailable ()
          "en" () log ∧ ∃ access ∈ log, access.success = false := by
  have hdefault : (ofConfiguration Configuration.bilingual).contains "en" = true := by decide
  have hchosen : (ofConfiguration Configuration.bilingual).choose "en" true (some ["fr"])
      = "fr" := by
    decide +kernel
  refine ⟨hdefault, ?_, ?_⟩
  · obtain ⟨code, world', log, -, hrun, hresolves, hagain⟩ :=
      resolves_initial _ hdefault true true .memory (some ["fr"]) (some "de")
    have hlast : (code, (world', log)) =
        ("fr", (some "fr", [.read languageKey true, .write languageKey "fr" true])) :=
      hrun.symm.trans rfl
    cases hlast
    rw [hchosen] at hresolves
    exact ⟨_, hresolves, by decide, hagain rfl id PreferenceStore.memory_remembers⟩
  · obtain ⟨code, world', log, -, hrun, hresolves, -⟩ :=
      resolves_initial _ hdefault true true .unavailable (some ["fr"]) ()
    have hlast : (code, (world', log)) = ("en", ((), [.read languageKey false])) :=
      hrun.symm.trans rfl
    cases hlast
    rw [hchosen] at hresolves
    exact ⟨_, hresolves, by decide⟩

end Registry

end Phrasebook
