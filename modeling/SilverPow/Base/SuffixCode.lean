import Mathlib.Data.List.Induction
import Mathlib.Data.Nat.Notation
import Mathlib.Logic.Function.Basic

/-!
# Suffix codes

An encoding that is read off the right end of a text, whatever text stands before it. Such
encodings are closed under concatenation and under text of a fixed form around them, so the
format of a record is one when the formats of its fields are. A field of varying length
needs its left end marked: by a symbol it does not contain, or by a quote that it contains
escaped only.
-/

namespace SilverPow.Base

/-- A text ends in the encoding of at most one value, and in one place only. -/
def SuffixCode {α σ : Type*} (encode : α → List σ) : Prop :=
  ∀ ⦃before₁ before₂ : List σ⦄ ⦃a b : α⦄,
    before₁ ++ encode a = before₂ ++ encode b → before₁ = before₂ ∧ a = b

/-- A text in which every quote and every backslash belongs to a pair that a backslash
starts. -/
inductive Escaped {σ : Type*} (quote backslash : σ) : List σ → Prop
  | nil : Escaped quote backslash []
  | plain {c : σ} {text : List σ} : c ≠ quote → c ≠ backslash → Escaped quote backslash text →
      Escaped quote backslash (c :: text)
  | pair (c : σ) {text : List σ} : Escaped quote backslash text →
      Escaped quote backslash (backslash :: c :: text)

/-- What stands before a quote of an escaped text ends in a backslash. -/
theorem Escaped.before_quote {σ : Type*} {quote backslash : σ} (hne : quote ≠ backslash)
    {before after : List σ} (h : Escaped quote backslash (before ++ quote :: after)) :
    ∃ text, before = text ++ [backslash] := by
  generalize ht : before ++ quote :: after = text at h
  induction h generalizing before with
  | nil => simp at ht
  | plain hq _ _ ih =>
    cases before with
    | nil => exact absurd (List.cons.inj ht).1.symm hq
    | cons c before =>
      obtain ⟨rfl, hts⟩ := List.cons.inj ht
      obtain ⟨text, rfl⟩ := ih hts
      exact ⟨c :: text, rfl⟩
  | pair _ _ ih =>
    match before with
    | [] => exact absurd (List.cons.inj ht).1 hne
    | [c] =>
      obtain ⟨rfl, -⟩ := List.cons.inj ht
      exact ⟨[], rfl⟩
    | c :: d :: before =>
      have hts := (List.cons.inj (List.cons.inj ht).2).2
      obtain ⟨text, rfl⟩ := ih hts
      rw [(List.cons.inj ht).1]
      exact ⟨backslash :: d :: text, rfl⟩

/-- An item more at the end of a list. -/
theorem intercalate_concat {σ : Type*} (separator : List σ) {items : List (List σ)}
    (h : items ≠ []) (item : List σ) :
    List.intercalate separator (items ++ [item]) =
      List.intercalate separator items ++ (separator ++ item) := by
  induction items with
  | nil => exact absurd rfl h
  | cons first items ih =>
    cases items with
    | nil => simp
    | cons second items =>
      rw [List.cons_append, List.intercalate_cons_of_ne_nil (by simp), ih (by simp),
        List.intercalate_cons_cons]
      simp only [List.append_assoc]

theorem last_eq_of_append {σ : Type*} {text text' text'' : List σ} {x y : σ}
    (h : text ++ [x] = text' ++ (text'' ++ [y])) : x = y := by
  rw [← List.append_assoc] at h
  simpa using List.append_inj_right' h rfl

namespace SuffixCode

variable {α β σ : Type*} {encode : α → List σ}

theorem injective (h : SuffixCode encode) : Function.Injective encode := by
  intro a b hab
  exact (h (congrArg ([] ++ ·) hab)).2

/-- Encodings of one length end at the same place. -/
theorem of_length {n : Nat} (hl : ∀ a, (encode a).length = n) (hi : Function.Injective encode) :
    SuffixCode encode := by
  intro before₁ before₂ a b h
  obtain ⟨hb, he⟩ := List.append_inj' h (by rw [hl, hl])
  exact ⟨hb, hi he⟩

theorem comp (h : SuffixCode encode) {f : β → α} (hf : Function.Injective f) :
    SuffixCode fun b ↦ encode (f b) := by
  intro before₁ before₂ a b hab
  obtain ⟨hb, he⟩ := h hab
  exact ⟨hb, hf he⟩

/-- One encoding after another. -/
theorem append {encode' : β → List σ} (h : SuffixCode encode) (h' : SuffixCode encode') :
    SuffixCode fun ab : α × β ↦ encode ab.1 ++ encode' ab.2 := by
  intro before₁ before₂ ab cd he
  rw [← List.append_assoc, ← List.append_assoc] at he
  obtain ⟨he, h₂⟩ := h' he
  obtain ⟨hb, h₁⟩ := h he
  exact ⟨hb, Prod.ext h₁ h₂⟩

/-- A fixed text before an encoding. -/
theorem text_append (h : SuffixCode encode) (text : List σ) :
    SuffixCode fun a ↦ text ++ encode a := by
  intro before₁ before₂ a b he
  rw [← List.append_assoc, ← List.append_assoc] at he
  obtain ⟨hb, ha⟩ := h he
  exact ⟨List.append_cancel_right hb, ha⟩

/-- A fixed text after an encoding. -/
theorem append_text (h : SuffixCode encode) (text : List σ) :
    SuffixCode fun a ↦ encode a ++ text := by
  intro before₁ before₂ a b he
  rw [← List.append_assoc, ← List.append_assoc] at he
  exact h (List.append_cancel_right he)

/-- The mark is the last of its kind, so it stands where the encoding starts. -/
theorem marked {mark : σ} (hi : Function.Injective encode) (hm : ∀ a, mark ∉ encode a) :
    SuffixCode fun a ↦ mark :: encode a := by
  intro before₁ before₂ a b h
  obtain ⟨c, rfl, hc⟩ | ⟨c, rfl, hc⟩ := List.append_eq_append_iff.mp h
  · cases c with
    | nil => exact ⟨(List.append_nil _).symm, hi (List.cons.inj hc).2⟩
    | cons d c =>
      have hmem : mark ∈ encode a := by
        rw [(List.cons.inj hc).2]
        simp
      exact absurd hmem (hm a)
  · cases c with
    | nil => exact ⟨List.append_nil _, hi (List.cons.inj hc).2.symm⟩
    | cons d c =>
      have hmem : mark ∈ encode b := by
        rw [(List.cons.inj hc).2]
        simp
      exact absurd hmem (hm b)

/-- A quote that another escaped text contains would need a backslash where `lead` is. -/
private theorem quoted_aux {quote backslash lead : σ} (hq : quote ≠ backslash)
    (hl : lead ≠ backslash) {before₁ before₂ c text₁ text₂ : List σ}
    (he : Escaped quote backslash text₁) (hb : before₂ ++ [lead] = before₁ ++ [lead] ++ c)
    (hc : quote :: text₁ = c ++ quote :: text₂) : before₁ = before₂ ∧ text₁ = text₂ := by
  cases c with
  | nil =>
    rw [List.append_nil] at hb
    exact ⟨(List.append_cancel_right hb).symm, (List.cons.inj hc).2⟩
  | cons d c =>
    rw [(List.cons.inj hc).2] at he
    obtain ⟨text, rfl⟩ := he.before_quote hq
    rw [← List.cons_append] at hb
    exact absurd (last_eq_of_append hb) hl

/-- An escaped text in quotes: the opening quote is the last one that no backslash is before. -/
theorem quoted {quote backslash lead : σ} (hq : quote ≠ backslash) (hl : lead ≠ backslash)
    (hi : Function.Injective encode) (he : ∀ a, Escaped quote backslash (encode a)) :
    SuffixCode fun a ↦ lead :: quote :: (encode a ++ [quote]) := by
  intro before₁ before₂ a b h
  have hab : (before₁ ++ [lead] ++ quote :: encode a) ++ [quote] =
      (before₂ ++ [lead] ++ quote :: encode b) ++ [quote] := by
    simpa using h
  obtain ⟨c, hb, hc⟩ | ⟨c, hb, hc⟩ :=
    List.append_eq_append_iff.mp (List.append_cancel_right hab)
  · obtain ⟨hb, ht⟩ := quoted_aux hq hl (he a) hb hc
    exact ⟨hb, hi ht⟩
  · obtain ⟨hb, ht⟩ := quoted_aux hq hl (he b) hb hc
    exact ⟨hb.symm, hi ht.symm⟩

/-- Decimal digits after something that is no digit. -/
theorem digits {mark : Char} (hm : mark.isDigit = false) :
    SuffixCode fun n : Nat ↦ mark :: Nat.toDigits 10 n := by
  apply marked
  · intro m n h
    rw [← Nat.ofDigitChars_ten_toDigits (n := m), h, Nat.ofDigitChars_ten_toDigits]
  · intro n hn
    rw [Nat.isDigit_of_mem_toDigits (by omega) (by omega) hn] at hm
    cases hm

/-- What stands before the last item of a list. -/
private def listedInit (opening : σ) (separator : List σ) (items : List (List σ)) : List σ :=
  opening :: if items = [] then [] else List.intercalate separator items ++ separator

private theorem cons_intercalate_concat (opening : σ) (separator : List σ)
    (items : List (List σ)) (item : List σ) :
    opening :: List.intercalate separator (items ++ [item]) =
      listedInit opening separator items ++ item := by
  unfold listedInit
  by_cases h : items = []
  · subst h
    simp
  · rw [if_neg h, intercalate_concat separator h]
    simp

/-- A list behind a bracket: items and separators end in something else than the bracket. -/
theorem listed {body : α → List σ} {last : σ} (h : SuffixCode fun a ↦ body a ++ [last])
    {opening : σ} (hl : last ≠ opening) (separator : List σ) {final : σ} (hf : final ≠ opening) :
    SuffixCode fun as : List α ↦
      opening :: List.intercalate (separator ++ [final]) (as.map fun a ↦ body a ++ [last]) := by
  intro before₁ before₂ as bs hab
  beta_reduce at hab
  -- A text that ends in the bracket ends neither in an item nor in a separator.
  have hitem (text text' : List σ) (a : α) : text ++ [opening] ≠ text' ++ (body a ++ [last]) :=
    fun hc ↦ hl (last_eq_of_append hc).symm
  have hsep (text text' : List σ) : text ++ [opening] ≠ text' ++ (separator ++ [final]) :=
    fun hc ↦ hf (last_eq_of_append hc).symm
  induction as using List.reverseRecOn generalizing bs with
  | nil =>
    cases bs using List.reverseRecOn with
    | nil => exact ⟨List.append_cancel_right hab, rfl⟩
    | append_singleton bs b _ =>
      rw [List.map_append, List.map_singleton, cons_intercalate_concat, ← List.append_assoc] at hab
      exact absurd hab (hitem _ _ b)
  | append_singleton as a ih =>
    rw [List.map_append, List.map_singleton, cons_intercalate_concat, ← List.append_assoc] at hab
    cases bs using List.reverseRecOn with
    | nil => exact absurd hab.symm (hitem _ _ a)
    | append_singleton bs b _ =>
      rw [List.map_append, List.map_singleton, cons_intercalate_concat,
        ← List.append_assoc before₂] at hab
      obtain ⟨hi, rfl⟩ := h hab
      unfold listedInit at hi
      simp only [List.map_eq_nil_iff] at hi
      by_cases ha : as = [] <;> by_cases hb : bs = []
      · subst ha hb
        exact ⟨List.append_cancel_right hi, rfl⟩
      · rw [if_pos ha, if_neg hb, ← List.cons_append, ← List.append_assoc before₂] at hi
        exact absurd hi (hsep _ _)
      · rw [if_neg ha, if_pos hb, ← List.cons_append, ← List.append_assoc before₁] at hi
        exact absurd hi.symm (hsep _ _)
      · rw [if_neg ha, if_neg hb, ← List.cons_append, ← List.cons_append, ← List.append_assoc,
          ← List.append_assoc before₂] at hi
        obtain ⟨hbefore, rfl⟩ := ih (List.append_cancel_right hi)
        exact ⟨hbefore, rfl⟩

end SuffixCode
end SilverPow.Base
