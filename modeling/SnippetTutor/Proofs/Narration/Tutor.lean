import SnippetTutor.Lesson.Basic
import SnippetTutor.Narration.Tutor
import SnippetTutor.Proofs.Narration.Template

/-! # Narration by a chat model

The model is asked once for each step without an explanation, in the order of the steps, and each
reply goes to the step it was asked for. A failure and a blank reply leave the step to the
templates, which explain whatever a run with the usual marker or a lesson shows. Then nothing is
left to ask for, whoever is asked next.
That a narration comes to its end is said for a stack without bounds (`Fault`).
-/
namespace SnippetTutor
open Outcome

namespace StepRecord
variable {r : StepRecord} {t : Text}

theorem explanation?_eq_some : r.explanation? = some t ↔ r.explanation = some t ∧ t ≠ [] := by
  simp [explanation?, Option.filter_eq_some_iff]

theorem explanation?_explained (h : t ≠ []) : (r.explained t).explanation? = some t :=
  explanation?_eq_some.mpr ⟨rfl, h⟩

end StepRecord

/-- Puts the steps without an explanation to an explainer, with whatever effects it has. -/
def explainWith {m : Type → Type} [Monad m] (explainer : StepRecord → m Text) (records : List StepRecord) :
    m (List StepRecord) :=
  records.mapM fun r => match r.explanation? with
    | some _ => pure r
    | none => r.explained <$> explainer r

theorem explainRecords_eq (records : List StepRecord) :
    explainRecords records = explainWith Template.explain records := rfl

theorem explainWith_cons {m : Type → Type} [Monad m] [LawfulMonad m] (explainer : StepRecord → m Text)
    (r : StepRecord) (rest : List StepRecord) : explainWith explainer (r :: rest) =
    (match r.explanation? with
      | some _ => pure r
      | none => r.explained <$> explainer r) >>= fun first => (first :: ·) <$> explainWith explainer rest := by
  rw [explainWith, List.mapM_cons, explainWith]
  simp only [map_eq_pure_bind]

/-- Steps that are all explained are put to nobody. -/
theorem explainWith_of_explained {m : Type → Type} [Monad m] [LawfulMonad m] (explainer : StepRecord → m Text)
    {records : List StepRecord} (h : ∀ r ∈ records, r.explanation? ≠ none) :
    explainWith explainer records = pure records := by
  induction records with
  | nil => rfl
  | cons r rest ih =>
    rw [List.forall_mem_cons] at h
    obtain ⟨t, ht⟩ := Option.ne_none_iff_exists'.mp h.1
    rw [explainWith_cons, ht, ih h.2, pure_bind, map_pure]

/-- A record of a run with the usual marker, or of a hand-written step, whatever explanation it has
been given since. -/
def Recorded (r : StepRecord) : Prop :=
  ∃ made explanation, r = { made with explanation := explanation } ∧
    ((∃ (config : Config) (lines : List Text) (T : Trace), config.marker = ['#'] ∧
      Trace.ofLines config lines = .ok T ∧ made ∈ T.records) ∨
    ∃ (lesson : Lesson) (records : List StepRecord), lesson.records = .ok records ∧ made ∈ records)

/-- Nothing is known of the line of a hand-written step. -/
theorem Lesson.kind_of_record {lesson : Lesson} {records : List StepRecord} {r : StepRecord}
    (h : lesson.records = .ok records) (hr : r ∈ records) : r.kind = .unrecognized := by
  obtain ⟨⟨step, index⟩, -, hstep⟩ := exists_of_mem_mapM h hr
  obtain ⟨memory, -, hrecord⟩ := bind_eq_ok.mp hstep
  rw [← Except.ok.inj hrecord]

theorem Recorded.exists_explain {r : StepRecord} (h : Recorded r) : ∃ t, Template.explain r = .ok t := by
  obtain ⟨made, explanation, rfl, hmade⟩ := h
  rw [Template.exists_explain_iff]
  rcases hmade with ⟨config, lines, T, hmarker, hT, hr⟩ | ⟨lesson, records, hrecords, hr⟩
  · have hfits := Trace.fits_of_record (Or.inr hmarker) hT hr
    exact hfits
  · rw [Lesson.kind_of_record hrecords hr]
    exact trivial

namespace Tutor

variable {maxTokens : Int} {reply : Option Text} {replies : List (Option Text)} {r : StepRecord}
  {records rest : List StepRecord} {N : Narration} {t raw : Text} {i : Nat}

/-- Whether a step is put to the model. -/
def asks (r : StepRecord) : Bool := r.explanation?.isNone

theorem asks_eq_true : asks r = true ↔ r.explanation? = none := Option.isNone_iff_eq_none

theorem asks_eq_false : asks r = false ↔ ∃ t, r.explanation? = some t :=
  Option.isNone_eq_false_iff.trans Option.isSome_iff_exists

/-- How many steps before a position are put to the model. -/
def asked (records : List StepRecord) (i : Nat) : Nat := (records.take i).countP asks

/-- What the model answers to the request for the step at a position. -/
def answer (replies : List (Option Text)) (records : List StepRecord) (i : Nat) : Option Text :=
  replies[asked records i]?.join

theorem explain_of_reply (h : Text.trim raw ≠ []) : explain (some raw) r = .ok (Text.trim raw) := by
  have hkept : (some (Text.trim raw)).filter (!·.isEmpty) = some (Text.trim raw) :=
    Option.filter_eq_some_iff.mpr ⟨rfl, by simpa using h⟩
  rw [explain, Option.map_some, hkept]

theorem explain_of_blank (h : ∀ raw, reply = some raw → Text.trim raw = []) :
    explain reply r = Template.explain r := by
  cases reply with
  | none => rfl
  | some raw =>
    rw [explain, Option.map_some, h raw rfl]
    rfl

theorem ne_nil_of_explain (h : explain reply r = .ok t) : t ≠ [] := by
  rw [explain] at h
  split at h
  · next hreply =>
    cases h
    obtain ⟨-, hne⟩ := Option.filter_eq_some_iff.mp hreply
    simpa using hne
  · exact Template.ne_nil_of_explain h

theorem exists_explain (h : ∃ t, Template.explain r = .ok t) (reply : Option Text) :
    ∃ t, explain reply r = .ok t := by
  rw [explain]
  split
  · exact ⟨_, rfl⟩
  · exact h

theorem narrate_of_explained (h : asks r = false) : narrate maxTokens replies (r :: rest) =
    (narrate maxTokens replies rest).map fun more => { more with records := r :: more.records } := by
  obtain ⟨t, ht⟩ := asks_eq_false.mp h
  rw [narrate, ht]
  rfl

theorem narrate_of_asks (h : asks r = true) : narrate maxTokens replies (r :: rest) =
    explain replies.head?.join r >>= fun t => (narrate maxTokens (replies.drop 1) rest).map fun more =>
      ⟨r.explained t :: more.records, request maxTokens r :: more.requests⟩ := by
  rw [narrate, asks_eq_true.mp h]
  rfl

/-- Every step is explained if the templates explain those that are put to the model. -/
theorem exists_narrate (h : ∀ r ∈ records, asks r = true → ∃ t, Template.explain r = .ok t) (maxTokens : Int)
    (replies : List (Option Text)) : ∃ N, narrate maxTokens replies records = .ok N := by
  induction records generalizing replies with
  | nil => exact ⟨_, rfl⟩
  | cons r rest ih =>
    rw [List.forall_mem_cons] at h
    cases hasks : asks r with
    | false =>
      obtain ⟨N, hN⟩ := ih h.2 replies
      rw [narrate_of_explained hasks, hN]
      exact ⟨_, rfl⟩
    | true =>
      obtain ⟨t, ht⟩ := exists_explain (h.1 hasks) replies.head?.join
      obtain ⟨N, hN⟩ := ih h.2 (replies.drop 1)
      rw [narrate_of_asks hasks, ht, hN]
      exact ⟨_, rfl⟩

/-- There is one request for each step that is put to the model, and one record for each step. -/
theorem requests_of_narrate (h : narrate maxTokens replies records = .ok N) :
    N.requests = (records.filter asks).map (request maxTokens) ∧ N.records.length = records.length := by
  induction records generalizing replies N with
  | nil =>
    cases h
    exact ⟨rfl, rfl⟩
  | cons r rest ih =>
    cases hasks : asks r with
    | false =>
      rw [narrate_of_explained hasks] at h
      obtain ⟨more, hmore, rfl⟩ := map_eq_ok.mp h
      obtain ⟨hrequests, hlength⟩ := ih hmore
      rw [List.filter_cons_of_neg (by simp [hasks])]
      exact ⟨hrequests, by simp [hlength]⟩
    | true =>
      rw [narrate_of_asks hasks] at h
      obtain ⟨t, -, h⟩ := bind_eq_ok.mp h
      obtain ⟨more, hmore, rfl⟩ := map_eq_ok.mp h
      obtain ⟨hrequests, hlength⟩ := ih hmore
      rw [List.filter_cons_of_pos hasks, List.map_cons, ← hrequests]
      exact ⟨rfl, by simp [hlength]⟩

theorem asked_cons (r : StepRecord) (rest : List StepRecord) (i : Nat) :
    asked (r :: rest) (i + 1) = asked rest i + if asks r then 1 else 0 := by
  rw [asked, List.take_succ_cons, List.countP_cons, asked]

/-- What becomes of the step at a position. -/
theorem records_of_narrate (h : narrate maxTokens replies records = .ok N) (hr : records[i]? = some r) :
    (asks r = false → N.records[i]? = some r) ∧
    (asks r = true → N.requests[asked records i]? = some (request maxTokens r) ∧
      ∃ t, explain (answer replies records i) r = .ok t ∧ N.records[i]? = some (r.explained t)) := by
  induction records generalizing replies N i with
  | nil => simp at hr
  | cons first rest ih =>
    cases hasks : asks first with
    | false =>
      rw [narrate_of_explained hasks] at h
      obtain ⟨more, hmore, rfl⟩ := map_eq_ok.mp h
      cases i with
      | zero =>
        cases hr
        exact ⟨fun _ => rfl, fun hasked => absurd hasked (by simp [hasks])⟩
      | succ i =>
        have hcount : asked (first :: rest) (i + 1) = asked rest i := by simp [asked_cons, hasks]
        rw [answer, hcount]
        exact ih hmore hr
    | true =>
      rw [narrate_of_asks hasks] at h
      obtain ⟨t, ht, h⟩ := bind_eq_ok.mp h
      obtain ⟨more, hmore, rfl⟩ := map_eq_ok.mp h
      cases i with
      | zero =>
        cases hr
        refine ⟨fun hkept => absurd hkept (by simp [hasks]), fun _ => ⟨rfl, t, ?_, rfl⟩⟩
        rw [answer, asked, List.take_zero, List.countP_nil, ← List.head?_eq_getElem?]
        exact ht
      | succ i =>
        have hcount : asked (first :: rest) (i + 1) = asked rest i + 1 := by simp [asked_cons, hasks]
        have hreply : replies[asked rest i + 1]? = (replies.drop 1)[asked rest i]? := by
          rw [List.getElem?_drop, Nat.add_comm]
        rw [answer, hcount, hreply]
        exact ih hmore hr

theorem explained_of_narrate (h : narrate maxTokens replies records = .ok N) :
    ∀ e ∈ N.records, e.explanation? ≠ none := by
  intro e he
  obtain ⟨i, hi⟩ := List.mem_iff_getElem?.mp he
  obtain ⟨-, hlength⟩ := requests_of_narrate h
  obtain ⟨hlt, -⟩ := List.getElem?_eq_some_iff.mp hi
  have hr := List.getElem?_eq_getElem (l := records) (by omega : i < records.length)
  obtain ⟨hkept, htold⟩ := records_of_narrate h hr
  cases hasks : asks records[i] with
  | false =>
    rw [hkept hasks] at hi
    rw [← Option.some.inj hi]
    exact Option.ne_none_iff_exists'.mpr (asks_eq_false.mp hasks)
  | true =>
    obtain ⟨-, t, ht, htold⟩ := htold hasks
    rw [htold] at hi
    rw [← Option.some.inj hi, StepRecord.explanation?_explained (ne_nil_of_explain ht)]
    simp

/-- The model as an explainer: each step takes a reply and leaves a request. -/
def asking (maxTokens : Int) (r : StepRecord) :
    StateT (List (Option Text) × List Completion) (Except Misfit) Text := fun s =>
  (explain s.1.head?.join r).map fun t => (t, s.1.drop 1, s.2 ++ [request maxTokens r])

/-- Narration is what comes of putting the steps to the model: it takes as many replies as it leaves
requests. -/
theorem run_explainWith_asking (maxTokens : Int) (replies : List (Option Text)) (records : List StepRecord)
    (sent : List Completion) :
    (explainWith (asking maxTokens) records).run (replies, sent) =
      (narrate maxTokens replies records).map fun N =>
        (N.records, replies.drop (records.countP asks), sent ++ N.requests) := by
  induction records generalizing replies sent with
  | nil =>
    rw [explainWith, List.mapM_nil, StateT.run_pure, narrate, map_ok, List.append_nil]
    rfl
  | cons r rest ih =>
    rw [explainWith_cons]
    cases hasks : asks r with
    | false =>
      obtain ⟨t, ht⟩ := asks_eq_false.mp hasks
      rw [narrate_of_explained hasks, ht, pure_bind, StateT.run_map, ih, List.countP_cons_of_neg (by simp [hasks])]
      cases narrate maxTokens replies rest <;> rfl
    | true =>
      have hasked : (asking maxTokens r).run (replies, sent) =
          (explain replies.head?.join r).map fun t => (t, replies.drop 1, sent ++ [request maxTokens r]) := rfl
      rw [narrate_of_asks hasks, asks_eq_true.mp hasks, StateT.run_bind, StateT.run_map, hasked,
        List.countP_cons_of_pos hasks]
      cases explain replies.head?.join r with
      | error misfit => rfl
      | ok t =>
        have hrest := ih (replies.drop 1) (sent ++ [request maxTokens r])
        simp only [List.drop_drop, Nat.add_comm 1, List.append_assoc, List.cons_append, List.nil_append] at hrest
        change ((r.explained t :: ·) <$> explainWith (asking maxTokens) rest).run
          (replies.drop 1, sent ++ [request maxTokens r]) = _
        rw [StateT.run_map, hrest]
        cases narrate maxTokens (replies.drop 1) rest <;> rfl

/-- A second narration finds nothing to ask for. -/
theorem narrate_of_all_explained (h : ∀ r ∈ records, r.explanation? ≠ none) :
    narrate maxTokens replies records = .ok ⟨records, []⟩ := by
  have hrun := run_explainWith_asking maxTokens replies records []
  rw [explainWith_of_explained (asking maxTokens) h] at hrun
  obtain ⟨N, hN, hfinal⟩ := map_eq_ok.mp hrun.symm
  obtain ⟨hrecords, -, hrequests⟩ : N.records = records ∧ _ ∧ [] ++ N.requests = [] := by
    simpa only [Prod.mk.injEq] using hfinal
  rw [hN, ← hrecords]
  rw [List.nil_append] at hrequests
  rw [← hrequests]

end Tutor

/-- Narration by a chat model always comes to its end on what runs and lessons show, whatever the
model replies and whenever it fails. Steps with an explanation stay as they are and cost nothing.
The others cost one request each, in their order; the reply to it, without blanks around it, is the
explanation of that step, and without a reply, or with a blank one, it is what the template says of
it. Then every step has an explanation, and no explainer is asked again. -/
theorem narration_asks_once_for_each_missing {records : List StepRecord} (h : ∀ r ∈ records, Recorded r)
    (maxTokens : Int) (replies : List (Option Text)) :
    ∃ N, Tutor.narrate maxTokens replies records = .ok N ∧
      N.requests = (records.filter Tutor.asks).map (Tutor.request maxTokens) ∧
      N.records.length = records.length ∧
      (∀ (i : Nat) r, records[i]? = some r → Tutor.asks r = false → N.records[i]? = some r) ∧
      (∀ (i : Nat) r, records[i]? = some r → Tutor.asks r = true →
        N.requests[Tutor.asked records i]? = some (Tutor.request maxTokens r) ∧
        (∀ raw, Tutor.answer replies records i = some raw → Text.trim raw ≠ [] →
          N.records[i]? = some { r with explanation := some (Text.trim raw) }) ∧
        ((∀ raw, Tutor.answer replies records i = some raw → Text.trim raw = []) →
          ∃ t, Template.explain r = .ok t ∧ N.records[i]? = some { r with explanation := some t })) ∧
      (∀ r ∈ N.records, ∃ t, t ≠ [] ∧ r.explanation = some t) ∧
      (∀ maxTokens' replies', Tutor.narrate maxTokens' replies' N.records = .ok ⟨N.records, []⟩) ∧
      explainRecords N.records = .ok N.records ∧
      ∀ (m : Type → Type) [Monad m] [LawfulMonad m] (explainer : StepRecord → m Text),
        explainWith explainer N.records = pure N.records := by
  obtain ⟨N, hN⟩ := Tutor.exists_narrate (fun r hr _ => (h r hr).exists_explain) maxTokens replies
  obtain ⟨hrequests, hlength⟩ := Tutor.requests_of_narrate hN
  have hexplained := Tutor.explained_of_narrate hN
  refine ⟨N, hN, hrequests, hlength, ?_, ?_, ?_, ?_, ?_, ?_⟩
  · intro i r hr hasks
    exact (Tutor.records_of_narrate hN hr).1 hasks
  · intro i r hr hasks
    obtain ⟨hrequest, t, ht, htold⟩ := (Tutor.records_of_narrate hN hr).2 hasks
    refine ⟨hrequest, ?_, ?_⟩
    · intro raw hraw hblank
      rw [hraw, Tutor.explain_of_reply hblank] at ht
      rw [htold, ← Except.ok.inj ht]
      rfl
    · intro hblank
      rw [Tutor.explain_of_blank hblank] at ht
      exact ⟨t, ht, htold⟩
  · intro r hr
    obtain ⟨t, ht⟩ := Option.ne_none_iff_exists'.mp (hexplained r hr)
    obtain ⟨hexplanation, hne⟩ := StepRecord.explanation?_eq_some.mp ht
    exact ⟨t, hne, hexplanation⟩
  · intro maxTokens' replies'
    exact Tutor.narrate_of_all_explained hexplained
  · rw [explainRecords_eq]
    exact explainWith_of_explained Template.explain hexplained
  · intro m _ _ explainer
    exact explainWith_of_explained explainer hexplained

/-- A lesson with a step that is explained, and one whose explanation is empty. -/
def annotated : Lesson where
  code := "x = 1".toList
  steps := some [{ line := 1, explanation := some "Kept.".toList }, { line := 9, explanation := some [] }]

/-- A failure, a reply, a step that is not asked for, and a blank reply. -/
theorem narration_asks_once_for_each_missing_annotated : ∃ T told N,
    Trace.ofLines {} ["x = 1".toList, "print(x)".toList] = .ok T ∧ annotated.records = .ok told ∧
    Tutor.narrate 128 [none, some "  shows x ".toList, some " ".toList] (T.records ++ told) = .ok N ∧
    N.requests.length = 3 ∧
    N.records.map StepRecord.explanation =
      [some ("Stores 1 in the variable ".toList ++ Template.named "x".toList ++ ['.']), some "shows x".toList,
        some "Kept.".toList, some Template.unsimulated] ∧
    Tutor.narrate 128 [some "other".toList] N.records = .ok ⟨N.records, []⟩ := by
  have hT := Option.eq_some_of_isSome
    (o := (Trace.ofLines {} ["x = 1".toList, "print(x)".toList]).toOption) (by decide +kernel)
  have htold := Option.eq_some_of_isSome (o := annotated.records.toOption) (by decide +kernel)
  generalize hshown : ((Trace.ofLines {} ["x = 1".toList, "print(x)".toList]).toOption.get
    (by decide +kernel)).records ++ annotated.records.toOption.get (by decide +kernel) = records
  have hrecorded : ∀ r ∈ records, Recorded r := by
    rw [← hshown]
    refine List.forall_mem_append.mpr ⟨?_, ?_⟩
    · exact fun r hr => ⟨r, r.explanation, rfl, Or.inl ⟨{}, _, _, rfl, eq_ok_of_toOption hT, hr⟩⟩
    · exact fun r hr => ⟨r, r.explanation, rfl, Or.inr ⟨annotated, _, eq_ok_of_toOption htold, hr⟩⟩
  obtain ⟨N, hN, hrequests, -, -, -, -, hagain, -, -⟩ := narration_asks_once_for_each_missing hrecorded 128
    [none, some "  shows x ".toList, some " ".toList]
  have hcomputed : (Tutor.narrate 128 [none, some "  shows x ".toList, some " ".toList] records).toOption.map
      (fun N => N.records.map StepRecord.explanation) =
      some [some ("Stores 1 in the variable ".toList ++ Template.named "x".toList ++ ['.']), some "shows x".toList,
        some "Kept.".toList, some Template.unsimulated] := by
    rw [← hshown]
    decide +kernel
  rw [hN] at hcomputed
  refine ⟨_, _, N, eq_ok_of_toOption hT, eq_ok_of_toOption htold, by rw [hshown, hN], ?_,
    Option.some.inj hcomputed, hagain 128 _⟩
  rw [hrequests, List.length_map, ← hshown]
  decide +kernel

end SnippetTutor
