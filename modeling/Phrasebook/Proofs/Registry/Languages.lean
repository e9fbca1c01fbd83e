import Phrasebook.Registry

/-!
# The languages of a registry

`find?` sees a language by its code, and changing a cell changes only what `find?` sees at that
code. In the registry of a configuration the codes are strictly ascending, so the default language
is the one that `find?` sees at its code, and every other language comes from the configuration.
-/

namespace Phrasebook.Registry

variable {L : Type} {registry : Registry L} {code c : String} {language other : Language L}
  {cell : Cell}

theorem code_of_find? (h : registry.find? code = some language) : language.code = code := by
  have := List.find?_some h
  simpa using this

theorem contains_iff :
    registry.contains code = true ↔ ∃ language, registry.find? code = some language := by
  unfold contains find?
  rw [← Option.isSome_iff_exists, List.find?_isSome, List.any_eq_true]

theorem find?_setCell (registry : Registry L) (code c : String) (cell : Cell) :
    (registry.setCell code cell).find? c =
      (registry.find? c).map fun language =>
        if language.code = code then { language with cell } else language := by
  unfold setCell find?
  rw [List.find?_map]
  congr 2
  funext language
  simp only [Function.comp]
  split <;> rfl

theorem find?_setCell_self (h : registry.find? code = some language) :
    (registry.setCell code cell).find? code = some { language with cell } := by
  rw [find?_setCell, h, Option.map_some, if_pos (code_of_find? h)]

theorem of_find?_setCell (h : (registry.setCell code cell).find? c = some language) :
    ∃ old, registry.find? c = some old ∧
      (c ≠ code ∧ language = old ∨ c = code ∧ language = { old with cell }) := by
  rw [find?_setCell] at h
  obtain ⟨old, hold, rfl⟩ := Option.map_eq_some_iff.1 h
  refine ⟨old, hold, ?_⟩
  rw [code_of_find? hold]
  split
  · next e => exact .inr ⟨e, rfl⟩
  · next e => exact .inl ⟨e, rfl⟩

theorem contains_setCell : (registry.setCell code cell).contains c = registry.contains c := by
  unfold contains setCell
  rw [List.any_map]
  congr 1
  funext language
  simp only [Function.comp]
  split <;> rfl

theorem exists_find?_setCell (h : ∃ language, registry.find? c = some language) :
    ∃ language, (registry.setCell code cell).find? c = some language := by
  rw [← contains_iff, contains_setCell, contains_iff]
  exact h

/-! ## Growth -/

/-- The same languages, with perhaps more datasets. -/
structure Grows (registry later : Registry L) : Prop where
  defaultCode : later.defaultCode = registry.defaultCode
  contains : ∀ c, later.contains c = registry.contains c
  back : ∀ c language, later.find? c = some language → ∃ old, registry.find? c = some old ∧
    language.direction = old.direction ∧ language.loader = old.loader ∧
    ∀ content, old.cell.dataset = some content → language.cell.dataset = some content

variable {later last : Registry L}

theorem Grows.refl (registry : Registry L) : registry.Grows registry :=
  ⟨rfl, fun _ => rfl, fun _ language hl => ⟨language, hl, rfl, rfl, fun _ h => h⟩⟩

theorem Grows.trans (h : registry.Grows later) (h' : later.Grows last) : registry.Grows last where
  defaultCode := h'.defaultCode.trans h.defaultCode
  contains c := (h'.contains c).trans (h.contains c)
  back c language hl := by
    obtain ⟨mid, hmid, hdir, hloader, hdata⟩ := h'.back c language hl
    obtain ⟨old, hold, hdir', hloader', hdata'⟩ := h.back c mid hmid
    exact ⟨old, hold, hdir.trans hdir', hloader.trans hloader', fun content e =>
      hdata content (hdata' content e)⟩

theorem Grows.find? (h : registry.Grows later) (hl : registry.find? c = some language) :
    ∃ new, later.find? c = some new ∧ new.direction = language.direction ∧
      new.loader = language.loader ∧
      ∀ content, language.cell.dataset = some content → new.cell.dataset = some content := by
  obtain ⟨new, hnew⟩ : ∃ new, later.find? c = some new := by
    rw [← contains_iff, h.contains, contains_iff]; exact ⟨language, hl⟩
  obtain ⟨old, hold, hrest⟩ := h.back c new hnew
  obtain rfl := Option.some.inj (hl.symm.trans hold)
  exact ⟨new, hnew, hrest⟩

theorem grows_setCell (hl : registry.find? code = some language)
    (hdata : ∀ content, language.cell.dataset = some content → cell.dataset = some content) :
    registry.Grows (registry.setCell code cell) where
  defaultCode := rfl
  contains _ := contains_setCell
  back c other hother := by
    obtain ⟨old, hold, ⟨-, rfl⟩ | ⟨rfl, rfl⟩⟩ := of_find?_setCell hother
    · exact ⟨other, hold, rfl, rfl, fun _ h => h⟩
    · obtain rfl := Option.some.inj (hl.symm.trans hold)
      exact ⟨language, hl, rfl, rfl, hdata⟩

/-! ## The registry of a configuration -/

theorem mem_insert {languages : List (Language L)} (h : other ∈ insert language languages) :
    other = language ∨ other ∈ languages := by
  induction languages with
  | nil => exact .inl (List.mem_singleton.1 h)
  | cons first rest ih =>
    simp only [insert] at h
    split at h
    · exact List.mem_cons.1 h
    · split at h
      · exact .inr h
      · rcases List.mem_cons.1 h with rfl | h
        · exact .inr List.mem_cons_self
        · exact (ih h).imp_right (List.mem_cons_of_mem _)

theorem pairwise_insert {languages : List (Language L)}
    (h : languages.Pairwise (·.code < ·.code)) :
    (insert language languages).Pairwise (·.code < ·.code) := by
  induction languages with
  | nil => exact List.pairwise_singleton _ _
  | cons first rest ih =>
    obtain ⟨hfirst, hrest⟩ := List.pairwise_cons.1 h
    simp only [insert]
    split
    · next hlt =>
      refine List.pairwise_cons.2 ⟨fun x hx => ?_, h⟩
      rcases List.mem_cons.1 hx with rfl | hx
      · exact hlt
      · exact String.lt_trans hlt (hfirst x hx)
    · split
      · exact h
      · next hlt hne =>
        refine List.pairwise_cons.2 ⟨fun x hx => ?_, ih hrest⟩
        rcases mem_insert hx with rfl | hx
        · exact Std.lt_of_le_of_ne (String.not_lt.1 hlt) (Ne.symm hne)
        · exact hfirst x hx

theorem find?_insert (language : Language L) {languages : List (Language L)}
    (h : languages.Pairwise (·.code < ·.code)) (c : String) :
    (insert language languages).find? (·.code = c) =
      (languages.find? (·.code = c)).or (if language.code = c then some language else none) := by
  induction languages with
  | nil => by_cases hc : language.code = c <;> simp [insert, hc]
  | cons first rest ih =>
    obtain ⟨hfirst, hrest⟩ := List.pairwise_cons.1 h
    simp only [insert]
    split
    · next hlt =>
      by_cases hc : language.code = c
      · have hnone : (first :: rest).find? (·.code = c) = none := by
          refine List.find?_eq_none.2 fun other hmem => ?_
          have hlt' : language.code < other.code := by
            rcases List.mem_cons.1 hmem with rfl | hmem
            · exact hlt
            · exact String.lt_trans hlt (hfirst other hmem)
          simp only [decide_eq_true_eq]
          exact fun hother => String.lt_irrefl _ ((hother.trans hc.symm) ▸ hlt')
        rw [List.find?_cons_of_pos (by simpa using hc), hnone, if_pos hc, Option.none_or]
      · rw [List.find?_cons_of_neg (by simpa using hc), if_neg hc, Option.or_none]
    · split
      · next hsame =>
        by_cases hc : language.code = c
        · rw [List.find?_cons_of_pos (by simpa using hsame.symm.trans hc), Option.some_or]
        · rw [if_neg hc, Option.or_none]
      · by_cases hc : first.code = c
        · rw [List.find?_cons_of_pos (by simpa using hc),
            List.find?_cons_of_pos (by simpa using hc), Option.some_or]
        · rw [List.find?_cons_of_neg (by simpa using hc),
            List.find?_cons_of_neg (by simpa using hc), ih hrest]

section Configured

variable {entries : List (String × LanguageInfo L)} {languages : List (Language L)}

theorem pairwise_insertAll (h : languages.Pairwise (·.code < ·.code)) :
    (entries.foldl (fun languages (code, info) => insert (.ofInfo code info) languages)
      languages).Pairwise (·.code < ·.code) := by
  induction entries generalizing languages with
  | nil => exact h
  | cons entry rest ih => exact ih (pairwise_insert h)

/-- Of the entries that are inserted the first with a code counts. -/
theorem find?_insertAll (h : languages.Pairwise (·.code < ·.code)) (c : String) :
    (entries.foldl (fun languages (code, info) => insert (.ofInfo code info) languages)
      languages).find? (·.code = c) =
      (languages.find? (·.code = c)).or ((entries.lookup c).map (Language.ofInfo c)) := by
  induction entries generalizing languages with
  | nil => rw [List.lookup_nil, Option.map_none, Option.or_none]; rfl
  | cons entry rest ih =>
    obtain ⟨code, info⟩ := entry
    have hcode : (Language.ofInfo code info).code = code := by
      unfold Language.ofInfo
      cases info.source <;> rfl
    rw [List.foldl_cons, ih (pairwise_insert h), find?_insert _ h, hcode, Option.or_assoc]
    congr 1
    by_cases hc : code = c
    · subst hc
      rw [if_pos rfl, List.lookup_cons_self]
      rfl
    · rw [if_neg hc, Option.none_or, List.lookup_cons, beq_false_of_ne (Ne.symm hc)]

theorem mem_insertAll
    (h : other ∈ entries.foldl (fun languages (code, info) => insert (.ofInfo code info) languages)
      languages) :
    other ∈ languages ∨ ∃ entry ∈ entries, other = .ofInfo entry.1 entry.2 := by
  induction entries generalizing languages with
  | nil => exact .inl h
  | cons entry rest ih =>
    rcases ih h with h | ⟨e, he, rfl⟩
    · rcases mem_insert h with rfl | h
      · exact .inr ⟨entry, List.mem_cons_self, rfl⟩
      · exact .inl h
    · exact .inr ⟨e, List.mem_cons_of_mem _ he, rfl⟩

end Configured

theorem pairwise_ofConfiguration (config : Configuration L) :
    (ofConfiguration config).languages.Pairwise (·.code < ·.code) :=
  pairwise_insertAll (List.pairwise_singleton _ _)

theorem find?_ofConfiguration_default (config : Configuration L) :
    (ofConfiguration config).find? config.default.code = some (.ofDefault config.default) := by
  unfold find? ofConfiguration
  rw [find?_insertAll (List.pairwise_singleton _ _)]
  simp [Language.ofDefault]

theorem find?_ofConfiguration {config : Configuration L} (hne : c ≠ config.default.code) :
    (ofConfiguration config).find? c = (config.languages.lookup c).map (Language.ofInfo c) := by
  unfold find? ofConfiguration
  rw [find?_insertAll (List.pairwise_singleton _ _)]
  simp [Language.ofDefault, Ne.symm hne]

/-- A configured language has just one of a dataset and a loader, and nobody has asked for it. -/
theorem of_mem_ofConfiguration {config : Configuration L}
    (h : language ∈ (ofConfiguration config).languages) :
    language.cell.turn = {} ∧ (language.cell.dataset.isSome ↔ language.loader = none) := by
  rcases mem_insertAll h with h | ⟨⟨code, info⟩, -, rfl⟩
  · rw [List.mem_singleton.1 h]
    simp [Language.ofDefault]
  · unfold Language.ofInfo
    cases info.source <;> simp

theorem of_find?_ofConfiguration {config : Configuration L}
    (h : (ofConfiguration config).find? c = some language) :
    language.cell.turn = {} ∧ (language.cell.dataset.isSome ↔ language.loader = none) :=
  of_mem_ofConfiguration (List.mem_of_find?_eq_some h)

end Phrasebook.Registry

namespace Phrasebook

/-- English with one text, and French from a loader. -/
def Configuration.bilingual : Configuration Unit where
  default := { code := "en", schema := ⟨.obj [("hello", .str "Hello")], rfl⟩, direction := .ltr }
  languages := [("fr", { source := .loader (), direction := .ltr })]
  remembers := true

end Phrasebook
