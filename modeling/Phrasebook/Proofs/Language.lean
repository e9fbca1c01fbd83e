import Mathlib.Data.List.Basic
import Mathlib.Data.List.Induction
import Phrasebook.Language
import Phrasebook.Proofs.Places
import Phrasebook.Proofs.Text

/-!
# Negotiation with the tags of an environment

What is read from a locale is a language tag, and a language tag reads as itself
(`posixTag?_eq_self_iff`). The preferences of an environment are the tags of its locale variables
without repetitions, so a language is negotiated with them as it is with all the tags
(`negotiates_detected`).
-/

namespace Phrasebook

/-! ## Negotiation as a search

Negotiation tries each preference in two forms, so it finds the first supported code in the list of
all forms in order (`negotiate_eq`). A search stops at the first code it finds, so a preference that
has been tried before can be left out (`findSome?_append_cons_of_mem`), and leaving out all of these
keeps the first occurrences (`findSome?_firstOccurrences`).
-/

section

variable {supported preferences tags before : List String} {tag code fallback : String}

/-! ### Searching -/

/-- The forms in which preferences are tried, in order: each as it stands and then its base. -/
def expanded (preferences : List String) : List String :=
  preferences.flatMap fun tag => [tag, baseTag tag]

theorem accept?_eq_find? (supported : List String) (tag : String) :
    accept? supported tag = [tag, baseTag tag].find? (· ∈ supported) := by
  unfold accept?
  by_cases htag : tag ∈ supported
  · simp [htag]
  · by_cases hbase : baseTag tag ∈ supported <;> simp [htag, hbase]

theorem findSome?_accept? (supported preferences : List String) :
    preferences.findSome? (accept? supported) =
      (expanded preferences).find? (· ∈ supported) := by
  rw [expanded, List.find?_flatMap, funext (accept?_eq_find? supported)]

theorem negotiate_eq (supported preferences : List String) (fallback : String) :
    negotiate supported (some preferences) fallback =
      ((expanded preferences).find? (· ∈ supported)).getD fallback := by
  rw [← findSome?_accept?]
  rfl

/-- The order of the supported codes does not matter, nor how often each is listed. -/
theorem negotiate_congr {other : List String} (h : ∀ code, code ∈ other ↔ code ∈ supported)
    (preferences : Option (List String)) (fallback : String) :
    negotiate other preferences fallback = negotiate supported preferences fallback := by
  have haccept : accept? other = accept? supported := by
    funext tag
    simp only [accept?, h]
  unfold negotiate
  rw [haccept]

/-! ### Repetitions -/

section Repetitions

variable {α : Type} (f : String → Option α)

theorem findSome?_or_of_mem (h : tag ∈ tags) :
    (tags.findSome? f).or (f tag) = tags.findSome? f := by
  cases hfound : tags.findSome? f with
  | some a => rfl
  | none => rw [List.findSome?_eq_none_iff.1 hfound tag h]; rfl

theorem findSome?_append_cons_of_mem (h : tag ∈ before) (after : List String) :
    (before ++ tag :: after).findSome? f = (before ++ after).findSome? f := by
  have hsplit : before ++ tag :: after = (before ++ [tag]) ++ after := by simp
  rw [hsplit, List.findSome?_append, List.findSome?_append, List.findSome?_singleton,
    findSome?_or_of_mem f h, ← List.findSome?_append]

theorem firstOccurrences_snoc (tags : List String) (tag : String) :
    firstOccurrences (tags ++ [tag]) =
      if tag ∈ firstOccurrences tags then firstOccurrences tags
      else firstOccurrences tags ++ [tag] := by
  unfold firstOccurrences
  rw [List.foldl_append]
  rfl

theorem mem_firstOccurrences : code ∈ firstOccurrences tags ↔ code ∈ tags := by
  induction tags using List.reverseRecOn with
  | nil => rfl
  | append_singleton tags tag ih =>
    rw [firstOccurrences_snoc]
    split
    · next hmem =>
      rw [ih, List.mem_append, List.mem_singleton, iff_self_or]
      rintro rfl
      exact ih.1 hmem
    · rw [List.mem_append, List.mem_append, ih]

theorem findSome?_firstOccurrences (tags : List String) :
    (firstOccurrences tags).findSome? f = tags.findSome? f := by
  induction tags using List.reverseRecOn with
  | nil => rfl
  | append_singleton tags tag ih =>
    rw [firstOccurrences_snoc, List.findSome?_append, List.findSome?_singleton, ← ih]
    split
    · next hmem => rw [findSome?_or_of_mem f hmem]
    · rw [List.findSome?_append, List.findSome?_singleton]

end Repetitions

theorem pairwise_firstOccurrences (tags : List String) :
    (firstOccurrences tags).Pairwise (tags.idxOf · < tags.idxOf ·) := by
  induction tags using List.reverseRecOn with
  | nil => exact .nil
  | append_singleton tags tag ih =>
    -- A tag that has occurred already keeps its place when one more is added.
    have hkeep : ∀ code ∈ firstOccurrences tags, (tags ++ [tag]).idxOf code = tags.idxOf code :=
      fun code hmem => List.idxOf_append_of_mem (mem_firstOccurrences.1 hmem)
    have hbefore : (firstOccurrences tags).Pairwise
        ((tags ++ [tag]).idxOf · < (tags ++ [tag]).idxOf ·) := by
      refine ih.imp_of_mem fun ha hb hlt => ?_
      rwa [hkeep _ ha, hkeep _ hb]
    rw [firstOccurrences_snoc]
    split
    · exact hbefore
    · next hnot =>
      refine List.pairwise_append.2 ⟨hbefore, List.pairwise_singleton _ tag,
        fun code hmem last hlast => ?_⟩
      obtain rfl := List.mem_singleton.1 hlast
      have hnew : last ∉ tags := fun hin => hnot (mem_firstOccurrences.2 hin)
      have hcode := List.idxOf_lt_length_of_mem (mem_firstOccurrences.1 hmem)
      rw [hkeep code hmem, List.idxOf_append_of_notMem hnew]
      omega

theorem nodup_firstOccurrences (tags : List String) : (firstOccurrences tags).Nodup := by
  refine (pairwise_firstOccurrences tags).imp ?_
  rintro a b hlt rfl
  exact Nat.lt_irrefl _ hlt

end

/-! ## Locales -/

section

variable {locale tag : String} {s t : List Char} {c : Char} {env : Environment}

namespace Text

theorem mem_of_mem_before {sep : Char} (h : c ∈ before sep s) : c ∈ s :=
  (List.takeWhile_prefix _).subset h

theorem notMem_before (sep : Char) (s : List Char) : sep ∉ before sep s := fun h => by
  simpa using List.mem_takeWhile_imp h

theorem before_eq_self {sep : Char} (h : sep ∉ s) : before sep s = s :=
  List.takeWhile_eq_self_iff.2 fun _ hc => decide_eq_true (ne_of_mem_of_not_mem hc h)

end Text

/-! ### Underscores -/

/-- Underscores turned into hyphens. -/
def hyphenated (s : List Char) : List Char := s.map fun c => if c = '_' then '-' else c

theorem mem_hyphenated (h : c ∈ hyphenated s) (hc : c ≠ '-') : c ∈ s := by
  obtain ⟨d, hd, heq⟩ := List.mem_map.1 h
  split at heq
  · exact absurd heq.symm hc
  · exact heq ▸ hd

theorem underscore_notMem_hyphenated (s : List Char) : '_' ∉ hyphenated s := fun h => by
  obtain ⟨d, -, heq⟩ := List.mem_map.1 h
  split at heq
  · cases heq
  · next hd => exact hd heq

theorem hyphenated_eq_self (h : '_' ∉ s) : hyphenated s = s := by
  refine (List.map_congr_left fun c hc => ?_).trans (List.map_id s)
  rw [if_neg (ne_of_mem_of_not_mem hc h)]
  rfl

theorem eq_of_hyphenated_eq (h : hyphenated s = t) (ht : '-' ∉ t) : s = t := by
  have hs : '_' ∉ s := fun hmem => ht (h ▸ List.mem_map.2 ⟨'_', hmem, rfl⟩)
  rw [← h, hyphenated_eq_self hs]

theorem isBlank_hyphen (c : Char) :
    Text.isBlank (if c = '_' then '-' else c) = Text.isBlank c := by
  split
  · next h => subst h; decide
  · rfl

/-! ### Tags -/

/-- A language tag as locales give it: there is something in it, but no modifier, no encoding, no
underscore and no outer white space, and it is not one of the names for no language. -/
structure IsLanguageTag (tag : String) : Prop where
  ne_empty : tag ≠ ""
  no_modifier : '@' ∉ tag.toList
  no_encoding : '.' ∉ tag.toList
  no_underscore : '_' ∉ tag.toList
  first : ∀ c ∈ tag.toList.head?, Text.isBlank c = false
  last : ∀ c ∈ tag.toList.getLast?, Text.isBlank c = false
  ne_c : tag ≠ "C"
  ne_posix : tag ≠ "POSIX"

def languagePart (locale : String) : List Char :=
  Text.trim (Text.before '.' (Text.before '@' locale.toList))

theorem posixTag?_eq_some_iff : posixTag? locale = some tag ↔
    languagePart locale ≠ [] ∧ languagePart locale ≠ "C".toList ∧
      languagePart locale ≠ "POSIX".toList ∧ tag.toList = hyphenated (languagePart locale) := by
  have hc : "C".toList = ['C'] := rfl
  have hposix : "POSIX".toList = ['P', 'O', 'S', 'I', 'X'] := rfl
  have htag : String.ofList (hyphenated (languagePart locale)) = tag ↔
      tag.toList = hyphenated (languagePart locale) := by
    rw [← String.toList_inj, String.toList_ofList, eq_comm]
  rw [← htag, hc, hposix]
  show (if ((languagePart locale).isEmpty || languagePart locale = ['C'] ||
      languagePart locale = ['P', 'O', 'S', 'I', 'X']) = true then none
    else some (String.ofList (hyphenated (languagePart locale)))) = some tag ↔ _
  simp only [Bool.or_eq_true, List.isEmpty_iff, decide_eq_true_eq]
  split
  · next hnone =>
    refine iff_of_false nofun fun ⟨hne, hc, hposix, _⟩ => ?_
    rcases hnone with (h | h) | h
    · exact hne h
    · exact hc h
    · exact hposix h
  · next hsome =>
    obtain ⟨hsome, hposix⟩ := not_or.1 hsome
    obtain ⟨hne, hc⟩ := not_or.1 hsome
    rw [Option.some_inj]
    exact ⟨fun h => ⟨hne, hc, hposix, h⟩, fun ⟨_, _, _, h⟩ => h⟩

theorem isLanguageTag_of_posixTag? (h : posixTag? locale = some tag) : IsLanguageTag tag := by
  obtain ⟨hne, hc, hposix, htag⟩ := posixTag?_eq_some_iff.1 h
  have hmem {c : Char} (hmem : c ∈ tag.toList) (hhyphen : c ≠ '-') :
      c ∈ Text.before '.' (Text.before '@' locale.toList) :=
    Text.mem_of_mem_trim (mem_hyphenated (htag ▸ hmem) hhyphen)
  refine ⟨?_, fun hat => ?_, fun hdot => ?_, ?_, fun c hfirst => ?_, fun c hlast => ?_, ?_, ?_⟩
  · rintro rfl
    exact hne (List.map_eq_nil_iff.1 htag.symm)
  · exact Text.notMem_before '@' _ (Text.mem_of_mem_before (hmem hat (by decide)))
  · exact Text.notMem_before '.' _ (hmem hdot (by decide))
  · exact htag ▸ underscore_notMem_hyphenated _
  · rw [htag, hyphenated, List.head?_map] at hfirst
    obtain ⟨d, hd, rfl⟩ := Option.map_eq_some_iff.1 hfirst
    rw [isBlank_hyphen]
    exact Text.isBlank_of_head?_trim hd
  · rw [htag, hyphenated, List.getLast?_map] at hlast
    obtain ⟨d, hd, rfl⟩ := Option.map_eq_some_iff.1 hlast
    rw [isBlank_hyphen]
    exact Text.isBlank_of_getLast?_trim hd
  · rintro rfl
    exact hc (eq_of_hyphenated_eq htag.symm (by decide))
  · rintro rfl
    exact hposix (eq_of_hyphenated_eq htag.symm (by decide))

/-- The tags that read as themselves. -/
theorem posixTag?_eq_self_iff : posixTag? tag = some tag ↔ IsLanguageTag tag := by
  refine ⟨isLanguageTag_of_posixTag?, fun h => ?_⟩
  have hpart : languagePart tag = tag.toList := by
    unfold languagePart
    rw [Text.before_eq_self h.no_modifier, Text.before_eq_self h.no_encoding]
    exact Text.trim_eq_self_iff.2 ⟨h.first, h.last⟩
  rw [posixTag?_eq_some_iff, hpart, hyphenated_eq_self h.no_underscore]
  exact ⟨mt String.toList_eq_nil_iff.1 h.ne_empty, mt String.toList_inj.1 h.ne_c,
    mt String.toList_inj.1 h.ne_posix, rfl⟩

/-! ### Environments -/

/-- The tags in the value of a locale variable, which may be a list with colons. -/
def localeTags (value : Option String) : List String :=
  match value with
  | none => []
  | some text => (text.toList.splitOn ':').filterMap fun part => posixTag? (String.ofList part)

/-- The tags that an environment names, the most important first. -/
def namedTags (env : Environment) : List String :=
  localeTags (env.lookup "LANGUAGE") ++ localeTags (env.lookup "LC_ALL")
    ++ localeTags (env.lookup "LC_MESSAGES") ++ localeTags (env.lookup "LANG")

theorem allTags_eq (env : Environment) : allTags env = namedTags env := by
  have htags : allTags env = localeVariables.flatMap fun name => localeTags (env.lookup name) := by
    unfold allTags
    congr 1
    funext name
    cases env.lookup name with
    | none => rfl
    | some value =>
      show (Text.parts ':' value).filterMap posixTag? = _
      rw [Text.parts, Text.splitOn_eq, List.filterMap_map]
      rfl
  rw [htags, localeVariables, namedTags]
  simp only [List.flatMap_cons, List.flatMap_nil, List.append_nil, List.append_assoc]

theorem exists_of_mem_namedTags (h : tag ∈ namedTags env) :
    ∃ locale, posixTag? locale = some tag := by
  rw [← allTags_eq] at h
  obtain ⟨name, -, hmem⟩ := List.mem_flatMap.1 h
  split at hmem
  · obtain ⟨locale, -, htag⟩ := List.mem_filterMap.1 hmem
    exact ⟨locale, htag⟩
  · cases hmem

theorem preferredLanguages_eq (env : Environment) : preferredLanguages env =
    if namedTags env = [] then none else some (firstOccurrences (namedTags env)) := by
  have hnil : firstOccurrences (namedTags env) = [] ↔ namedTags env = [] := by
    simp only [List.eq_nil_iff_forall_not_mem, mem_firstOccurrences]
  unfold preferredLanguages
  rw [allTags_eq]
  split
  · next hempty => rw [if_pos (hnil.1 hempty)]
  · next hne => rw [if_neg (mt hnil.2 hne)]

/-- How a language is negotiated: it is the first form of a preference that is supported. -/
structure Negotiates (supported : List String) (fallback : String) : Prop where
  unlisted : negotiate supported none fallback = fallback
  first : ∀ preferences, negotiate supported (some preferences) fallback =
    ((expanded preferences).find? (· ∈ supported)).getD fallback
  supported_congr : ∀ other : List String, (∀ code, code ∈ other ↔ code ∈ supported) →
    ∀ preferences, negotiate other preferences fallback = negotiate supported preferences fallback
  repetition : ∀ before tag after, tag ∈ before →
    negotiate supported (some (before ++ tag :: after)) fallback =
      negotiate supported (some (before ++ after)) fallback
  repetitions : ∀ preferences, negotiate supported (some (firstOccurrences preferences)) fallback =
    negotiate supported (some preferences) fallback

/-- The preferences of an environment: the tags it names, each where it is named first. -/
structure Detects (env : Environment) (tags : List String) : Prop where
  nodup : tags.Nodup
  mem_iff : ∀ tag, tag ∈ tags ↔ tag ∈ namedTags env
  ordered : tags.Pairwise ((namedTags env).idxOf · < (namedTags env).idxOf ·)
  fixed : ∀ tag ∈ tags, posixTag? tag = some tag ∧ IsLanguageTag tag

theorem negotiates (supported : List String) (fallback : String) :
    Negotiates supported fallback where
  unlisted := rfl
  first preferences := negotiate_eq supported preferences fallback
  supported_congr _ h preferences := negotiate_congr h preferences fallback
  repetition _ _ after h :=
    congrArg (·.getD fallback) (findSome?_append_cons_of_mem (accept? supported) h after)
  repetitions preferences :=
    congrArg (·.getD fallback) (findSome?_firstOccurrences (accept? supported) preferences)

theorem detects_firstOccurrences (env : Environment) :
    Detects env (firstOccurrences (namedTags env)) where
  nodup := nodup_firstOccurrences _
  mem_iff _ := mem_firstOccurrences
  ordered := pairwise_firstOccurrences _
  fixed tag h := by
    obtain ⟨locale, htag⟩ := exists_of_mem_namedTags (mem_firstOccurrences.1 h)
    have hlanguage := isLanguageTag_of_posixTag? htag
    exact ⟨posixTag?_eq_self_iff.2 hlanguage, hlanguage⟩

/-- **Negotiation takes the first form of a preference that is supported, and an environment is
heard without bias**: its preferences are the tags it names without repetitions, and with these a
language is negotiated as with all of them. -/
theorem negotiates_detected (supported : List String) (fallback : String) (env : Environment) :
    Negotiates supported fallback ∧
      (preferredLanguages env = none ↔ namedTags env = []) ∧
      (∀ tags, preferredLanguages env = some tags → Detects env tags) ∧
      negotiate supported (preferredLanguages env) fallback =
        negotiate supported (some (namedTags env)) fallback := by
  have hnegotiates := negotiates supported fallback
  refine ⟨hnegotiates, ?_⟩
  rw [preferredLanguages_eq]
  by_cases hnil : namedTags env = []
  · rw [if_pos hnil, hnil]
    exact ⟨iff_of_true rfl rfl, nofun, rfl⟩
  · rw [if_neg hnil]
    refine ⟨iff_of_false nofun hnil, fun tags htags => ?_, hnegotiates.repetitions _⟩
    obtain rfl := Option.some.inj htags
    exact detects_firstOccurrences env

example : preferredLanguages [("LANG", "de_DE.UTF-8"), ("LANGUAGE", "fr_CA:C:fr_CA@euro:fr")] =
    some ["fr-CA", "fr", "de-DE"] := by decide +kernel

end

end Phrasebook
