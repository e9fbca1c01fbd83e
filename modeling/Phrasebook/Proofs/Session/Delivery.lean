import Phrasebook.Proofs.Session.Moves

/-!
# Where datasets come from

Only the end of a loader call fills a cell. So a dataset that was not configured is what some call
delivered, and the session shows a fallback only where a call has failed (`Delivered`): whatever is
known of the calls of a history is known of the datasets after it.
-/

namespace Phrasebook

variable {L : Type}

/-- In the transition a call of the loader of `code` ends with this result. -/
def Transition.AnswersLoad (transition : Transition L) (code : String)
    (result : Except Failure Json) : Prop :=
  ∃ g, transition.before.At g code .loading ∧ transition.event = .resume g (.loaded result)

/-- `P` holds of the datasets of all languages that have a loader. -/
def Registry.AllLoaded (P : String → Json → Prop) (registry : Registry L) : Prop :=
  ∀ code language content, registry.find? code = some language → language.loader ≠ none →
    language.cell.dataset = some content → P code content

namespace Session

variable {s t found : Session L} {g : Nat} {code initial : String} {answer : Answer}
  {event : Event} {direction : Direction} {content : Json} {fallback fresh : Bool}
  {language : Language L} {config : Configuration L} {locked : Option String}
  {P Q : String → Json → Prop} {history : List (Transition L)}

/-! ## Datasets -/

theorem allLoaded_setCell {registry : Registry L} {cell : Cell} (h : registry.AllLoaded P)
    (hl : registry.find? code = some language)
    (hcell : language.loader ≠ none → ∀ content, cell.dataset = some content → P code content) :
    (registry.setCell code cell).AllLoaded P := by
  intro c other content hother hloader hdata
  obtain ⟨old, hold, ⟨-, rfl⟩ | ⟨rfl, rfl⟩⟩ := Registry.of_find?_setCell hother
  · exact h c other content hold hloader hdata
  · obtain rfl := Option.some.inj (hl.symm.trans hold)
    exact hcell hloader content hdata

theorem allLoaded_keep {registry : Registry L} {cell : Cell} (h : registry.AllLoaded P)
    (hl : registry.find? code = some language) (hdata : cell.dataset = language.cell.dataset) :
    (registry.setCell code cell).AllLoaded P :=
  allLoaded_setCell h hl fun hloader content e => h code language content hl hloader (hdata ▸ e)

theorem Quiet.allLoaded (hq : Quiet g code answer s t) (h : s.registry.AllLoaded P) :
    t.registry.AllLoaded P := by
  cases hq with
  | takeTurn _ hl hdata hfree => exact allLoaded_keep h hl (by rw [Cell.ask_free hdata hfree])
  | joinTurn _ hl hdata htaken => exact allLoaded_keep h hl (by rw [Cell.ask_taken hdata htaken])
  | _ => exact h

/-- A switch brings in what its own call delivers, and nothing else. -/
theorem Finds.allLoaded (hf : Finds g code answer s found direction content fallback fresh)
    (h : s.registry.AllLoaded P)
    (hanswer : ∀ value, answer = .loaded (.ok value) → P code (unwrapModule value)) :
    found.registry.AllLoaded P := by
  cases hf with
  | cached _ _ _ => exact h
  | loaded _ hl hvalue =>
    exact allLoaded_setCell h hl fun _ _ e => Option.some.inj e ▸ hanswer _ hvalue
  | failed _ hl _ => exact allLoaded_keep h hl rfl
  | uncallable _ hl _ => exact allLoaded_keep h hl rfl
  | served _ _ _ => exact h
  | unserved _ _ _ => exact h

/-- A switch falls back only when its loader has just failed. -/
theorem Finds.failed_of_fallback (hf : Finds g code answer s found direction content true fresh)
    (h : s.Orderly) : ∃ language failure, s.registry.find? code = some language ∧
      language.loader ≠ none ∧ answer = .loaded (.error failure) := by
  cases hf with
  | @failed language failure hs hl hanswer =>
    exact ⟨language, failure, hl, h.loader_of_holding hs rfl hl, hanswer⟩
  | uncallable hs hl hnone => exact absurd hnone (h.loader_of_holding hs rfl hl)
  | unserved hs hl hnone => exact absurd hnone (h.served g _ _ hs rfl hl)

/-! ## Histories -/

/-- Where the datasets and the fallback of a session come from, given its history. -/
structure Delivered (history : List (Transition L)) (s : Session L) : Prop where
  dataset : s.registry.AllLoaded fun code content => ∃ transition ∈ history, ∃ value,
    transition.AnswersLoad code (.ok value) ∧ content = unwrapModule value
  fallback : s.snapshot.fallback = true → ∃ transition ∈ history, ∃ failure,
    transition.AnswersLoad s.snapshot.language (.error failure)

theorem Opens.delivered (h : Opens config locked initial s) : s.Delivered [] := by
  refine ⟨fun code language content hl hloader hdata => ?_, fun hfallback => ?_⟩
  · rw [h.begins.registry] at hl
    obtain ⟨-, hsource⟩ := Registry.of_find?_ofConfiguration hl
    exact absurd (hsource.1 (by rw [hdata]; rfl)) hloader
  · have hown : s.snapshot.fallback = false := by
      cases h with
      | there hl hdata hview => exact (view_fields hview).2.2.2.2.1
      | absent hl hdata hview => exact (view_fields hview).2.2.2.2.1
    cases hown.symm.trans hfallback

theorem Delivered.mono {more : List (Transition L)} (h : s.Delivered history)
    (hsub : history ⊆ more) : s.Delivered more where
  dataset code language content hl hloader hdata := by
    obtain ⟨transition, hmem, hrest⟩ := h.dataset code language content hl hloader hdata
    exact ⟨transition, hsub hmem, hrest⟩
  fallback hfallback := by
    obtain ⟨transition, hmem, hrest⟩ := h.fallback hfallback
    exact ⟨transition, hsub hmem, hrest⟩

theorem Quiet.delivered (hq : Quiet g code answer s t) (ho : s.Orderly)
    (h : s.Delivered history) : t.Delivered history :=
  ⟨hq.allLoaded h.dataset, (hq.keeps ho).snapshot ▸ h.fallback⟩

theorem Lands.delivered (hl : Lands g code answer s t) (ho : s.Orderly)
    (h : s.Delivered history)
    (hanswer : ∀ result, answer = .loaded result →
      ∃ transition ∈ history, transition.AnswersLoad code result) : t.Delivered history := by
  have hfound : ∀ {found direction content fallback fresh},
      Finds g code answer s found direction content fallback fresh →
      found.registry.AllLoaded fun code content => ∃ transition ∈ history, ∃ value,
        transition.AnswersLoad code (.ok value) ∧ content = unwrapModule value :=
    fun hf => hf.allLoaded h.dataset fun value e => by
      obtain ⟨transition, hmem, hanswers⟩ := hanswer _ e
      exact ⟨transition, hmem, value, hanswers, rfl⟩
  cases hl with
  | @shown found direction content fallback fresh snapshot hf _ hview =>
    obtain ⟨hlanguage, -, -, -, hfallback, -⟩ := view_fields hview
    have hloaded := hfound hf
    refine ⟨hloaded, fun hback => ?_⟩
    obtain rfl : fallback = true := hfallback.symm.trans hback
    obtain ⟨-, failure, -, -, hfailed⟩ := hf.failed_of_fallback ho
    obtain ⟨transition, hmem, hanswers⟩ := hanswer _ hfailed
    exact ⟨transition, hmem, failure, hlanguage ▸ hanswers⟩
  | overtaken hf _ =>
    have hloaded := hfound hf
    have hsame := (hf.offers ho).1.snapshot
    exact ⟨hloaded, hsame ▸ h.fallback⟩
  | settled _ _ => exact ⟨h.dataset, h.fallback⟩
  | faded _ _ => exact ⟨h.dataset, h.fallback⟩

theorem Delivered.next (h : s.Delivered history) (ho : s.Orderly) (event : Event) :
    (s.next event).Delivered (history ++ [⟨s, event, s.next event⟩]) := by
  have hmore := h.mono (List.subset_append_left history [⟨s, event, s.next event⟩])
  cases event with
  | request code =>
    rcases s.request_cases code with ⟨-, -, -, hreq⟩ | ⟨-, hreq, -⟩
    · have hnext : s.next (.request code) = s.accept code := congrArg Prod.fst hreq
      rw [hnext] at hmore ⊢
      exact ⟨hmore.dataset, hmore.fallback⟩
    · have hnext : s.next (.request code) = s := hreq
      rw [hnext] at hmore ⊢
      exact hmore
  | resume g answer =>
    cases hr : s.resume g answer with
    | none =>
      have hnext : s.next (.resume g answer) = s := congrArg (·.getD s) hr
      rw [hnext] at hmore ⊢
      exact hmore
    | some t =>
      have hnext : s.next (.resume g answer) = t := congrArg (·.getD s) hr
      rw [hnext] at hmore ⊢
      obtain ⟨code, stage, hat, htakes, hgo⟩ := resume_goes ho.numbered (ho.registered g) hr
      have hanswer : ∀ result, answer = .loaded result →
          ∃ transition ∈ history ++ [⟨s, .resume g answer, t⟩],
            transition.AnswersLoad code result := by
        rintro result rfl
        cases htakes
        exact ⟨_, List.mem_append_right _ (List.mem_singleton_self _), g, hat, rfl⟩
      have hcalm : s.calm.Orderly ∧ s.calm.Delivered (history ++ [⟨s, .resume g answer, t⟩]) :=
        ⟨ho.congr rfl rfl rfl rfl, hmore.dataset, hmore.fallback⟩
      have hboth := hgo.keep
        (P := fun m => m.Orderly ∧ m.Delivered (history ++ [⟨s, .resume g answer, t⟩])) hcalm
        (fun hq ⟨ho, hd⟩ => ⟨hq.orderly ho, hq.delivered ho hd⟩)
        (fun hl ⟨ho, hd⟩ => ⟨hl.orderly ho, hl.delivered ho hd hanswer⟩)
      exact hboth.2

/-- **Every dataset was configured or delivered**, and a fallback is shown where a load failed. -/
theorem Opens.delivered_after (h : Opens config locked initial s) (schedule : List Event) :
    (s.after schedule).Delivered (s.history schedule) := by
  induction schedule using List.reverseRecOn with
  | nil => exact h.delivered
  | append_singleton earlier event ih =>
    rw [history_snoc, after_snoc]
    exact ih.next (h.orderly.after earlier) event

end Session

end Phrasebook
