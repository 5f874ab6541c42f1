import Mathlib.Algebra.Order.Group.Nat
import Mathlib.Data.List.Basic
import Mathlib.Data.Nat.Digits.Lemmas
import Mathlib.Tactic.Ring

/-!
# Long division in half words

A number is given by its words, the most significant first, and divided by something smaller
than a word. Each word is divided in two halves, and the remainder that is carried to the next
half loses what does not fit in half a word. The quotient words are exact as long as nothing is
lost.

`B` is the size of half a word, so `B * B` is the size of a word; `d` is the divisor.
-/

namespace SilverPow.Base.LongDivision

/-- The quotient and the remainder of one word after the remainder of the words before it. -/
def divWord (B d r p : Nat) : Nat × Nat :=
  let high := r % B * B + p / B
  let low := high % d % B * B + p % B
  (high / d * B + low / d, low % d)

/-- Both remainders that are carried within a word and into it fit in half a word. -/
def Carries (B d r p : Nat) : Prop := r < B ∧ (r * B + p / B) % d < B

/-- The quotient words. -/
def divWords (B d : Nat) : Nat → List Nat → List Nat
  | _, [] => []
  | r, p :: ps => (divWord B d r p).1 :: divWords B d (divWord B d r p).2 ps

/-- The quotient words of a division that loses nothing. -/
def exactWords (B d : Nat) : Nat → List Nat → List Nat
  | _, [] => []
  | r, p :: ps => (r * (B * B) + p) / d :: exactWords B d ((r * (B * B) + p) % d) ps

/-- All remainders that are carried to a further half fit in half a word. -/
def AllCarry (B d : Nat) : Nat → List Nat → Prop
  | _, [] => True
  | r, p :: ps => Carries B d r p ∧ AllCarry B d ((r * (B * B) + p) % d) ps

instance decidableAllCarry (B d : Nat) : (r : Nat) → (ps : List Nat) → Decidable (AllCarry B d r ps)
  | _, [] => inferInstanceAs (Decidable True)
  | r, p :: ps =>
    have := decidableAllCarry B d ((r * (B * B) + p) % d) ps
    inferInstanceAs (Decidable ((r < B ∧ (r * B + p / B) % d < B) ∧
      AllCarry B d ((r * (B * B) + p) % d) ps))

/-- The number with some words, after a number that stands before them. -/
def valueFrom (B : Nat) (a : Nat) (ps : List Nat) : Nat := ps.foldl (fun a p ↦ a * (B * B) + p) a

/-- Where a remainder with the next word is less than the divisor, it is so with all the words
that follow: no zero word of the quotient stands before another word. -/
def ZerosLast (B d : Nat) : Nat → List Nat → Prop
  | _, [] => True
  | r, p :: ps => (r * (B * B) + p < d → valueFrom B (r * (B * B) + p) ps < d) ∧
      ZerosLast B d ((r * (B * B) + p) % d) ps

instance decidableZerosLast (B d : Nat) :
    (r : Nat) → (ps : List Nat) → Decidable (ZerosLast B d r ps)
  | _, [] => inferInstanceAs (Decidable True)
  | r, p :: ps =>
    have := decidableZerosLast B d ((r * (B * B) + p) % d) ps
    inferInstanceAs (Decidable ((r * (B * B) + p < d → valueFrom B (r * (B * B) + p) ps < d) ∧
      ZerosLast B d ((r * (B * B) + p) % d) ps))

/-- The words with the zero words moved to the end. -/
def compact (cs : List Nat) : List Nat := cs.filter (· ≠ 0) ++ cs.filter (· = 0)

/-! ### One word -/

section Word

variable {B d r p : Nat}

/-- Reducing a number that does not fit takes at least `B` away. -/
theorem mod_add_le {n : Nat} (h : B ≤ n) : n % B + B ≤ n := by
  rw [Nat.mod_eq_sub_mod h]
  have hle := Nat.mod_le (n - B) B
  omega

/-- The number before a word decides the order first. -/
theorem le_of_word_le {a b w x y : Nat} (hy : y < w) (h : a * w + x ≤ b * w + y) : a ≤ b := by
  by_contra hlt
  have hmul := Nat.mul_le_mul_right w (Nat.lt_of_not_le hlt)
  rw [Nat.succ_mul] at hmul
  omega

/-- Where the quotient is zero, nothing stands before the word. -/
theorem eq_zero_of_word_div {w : Nat} (hd : 0 < d) (hdw : d ≤ w) (h : (r * w + p) / d = 0) :
    r = 0 ∧ p < d := by
  have hlt := (Nat.div_eq_zero_iff_lt hd).mp h
  have hr : r ≤ 0 := le_of_word_le (x := p) (hlt.trans_le hdw) (by omega)
  obtain rfl := Nat.le_zero.mp hr
  rw [Nat.zero_mul, Nat.zero_add] at hlt
  exact ⟨rfl, hlt⟩

theorem divWord_snd_lt (hd : 0 < d) : (divWord B d r p).2 < d := Nat.mod_lt _ hd

/-- The quotient and the remainder of a word, with what the remainder within the word loses. -/
theorem divWord_eq (B d r p : Nat) :
    (divWord B d r p).1 * d + (divWord B d r p).2 + (r % B * B + p / B) % d * B =
      r % B * (B * B) + p + (r % B * B + p / B) % d % B * B := by
  have hhigh := Nat.div_add_mod (r % B * B + p / B) d
  have hlow := Nat.div_add_mod ((r % B * B + p / B) % d % B * B + p % B) d
  have hp := Nat.div_add_mod p B
  simp only [divWord]
  generalize r % B = a at hhigh hlow ⊢
  generalize (a * B + p / B) % d = high at hhigh hlow ⊢
  generalize (a * B + p / B) / d = q at hhigh ⊢
  generalize (high % B * B + p % B) / d = q', (high % B * B + p % B) % d = low at hlow ⊢
  calc (q * B + q') * d + low + high * B
      = (d * q + high) * B + (d * q' + low) := by ring
    _ = (a * B + p / B) * B + (high % B * B + p % B) := by rw [hhigh, hlow]
    _ = a * (B * B) + (B * (p / B) + p % B) + high % B * B := by ring
    _ = a * (B * B) + p + high % B * B := by rw [hp]

/-- A word is never divided to more than it holds. -/
theorem divWord_le (B d r p : Nat) :
    (divWord B d r p).1 * d + (divWord B d r p).2 ≤ r % B * (B * B) + p := by
  have heq := divWord_eq B d r p
  have hlost := Nat.mul_le_mul_right B (Nat.mod_le ((r % B * B + p / B) % d) B)
  omega

/-- The first word of a number loses nothing. -/
theorem carries_zero (hB : 0 < B) (hp : p < B * B) : Carries B d 0 p := by
  refine ⟨hB, (Nat.mod_le _ d).trans_lt ?_⟩
  rw [Nat.zero_mul, Nat.zero_add]
  exact (Nat.div_lt_iff_lt_mul hB).mpr hp

/-- Where the remainders fit, a word is divided exactly. -/
theorem divWord_of_carries (hd : 0 < d) (h : Carries B d r p) :
    divWord B d r p = ((r * (B * B) + p) / d, (r * (B * B) + p) % d) := by
  have heq := divWord_eq B d r p
  obtain ⟨hr, hhigh⟩ := h
  rw [Nat.mod_eq_of_lt hr, Nat.mod_eq_of_lt hhigh] at heq
  have hdiv : (r * (B * B) + p) / d = (divWord B d r p).1 ∧
      (r * (B * B) + p) % d = (divWord B d r p).2 := by
    refine (Nat.div_mod_unique hd).mpr ⟨?_, divWord_snd_lt hd⟩
    rw [Nat.mul_comm d]
    omega
  rw [hdiv.1, hdiv.2]

/-- Where a remainder does not fit, the quotient is too small. -/
theorem divWord_lt_of_not_carries (hB : 0 < B) (hd : 0 < d) (hdB : d ≤ B * B)
    (h : ¬Carries B d r p) : (divWord B d r p).1 < (r * (B * B) + p) / d := by
  have hle := divWord_le B d r p
  have hlost : (divWord B d r p).1 * d + B * B ≤ r * (B * B) + p := by
    by_cases hr : r < B
    · have heq := divWord_eq B d r p
      have hhigh : B ≤ (r * B + p / B) % d := Nat.le_of_not_lt fun hlt ↦ h ⟨hr, hlt⟩
      rw [Nat.mod_eq_of_lt hr] at heq
      have hmul := Nat.mul_le_mul_right B (mod_add_le hhigh)
      rw [Nat.add_mul] at hmul
      omega
    · have hmul := Nat.mul_le_mul_right (B * B) (mod_add_le (Nat.le_of_not_lt hr))
      have hBB : B * B ≤ B * (B * B) := Nat.le_mul_of_pos_left _ hB
      rw [Nat.add_mul] at hmul
      omega
  rw [Nat.lt_iff_add_one_le, Nat.le_div_iff_mul_le hd, Nat.succ_mul]
  omega

/-- A quotient that fits in half a word is that of the word alone. -/
theorem divWord_of_lt (hB : 0 < B) (hd : 0 < d) (hp : p < B * B)
    (h : (divWord B d r p).1 < B) :
    divWord B d r p = (p / d, p % d) ∧ (r % B * B + p / B) % d = r % B * B + p / B := by
  have hdiv : (r % B * B + p / B) / d = 0 := by
    by_contra hne
    have hle : B ≤ (r % B * B + p / B) / d * B :=
      Nat.le_mul_of_pos_left B (Nat.pos_of_ne_zero hne)
    exact absurd h (Nat.not_lt.mpr (hle.trans (Nat.le_add_right _ _)))
  have hhigh : (r % B * B + p / B) % d = r % B * B + p / B :=
    Nat.mod_eq_of_lt ((Nat.div_eq_zero_iff_lt hd).mp hdiv)
  have hlow : (r % B * B + p / B) % B * B + p % B = p := by
    rw [Nat.add_comm (r % B * B), Nat.add_mul_mod_self_right,
      Nat.mod_eq_of_lt ((Nat.div_lt_iff_lt_mul hB).mpr hp), Nat.mul_comm, Nat.div_add_mod]
  refine ⟨?_, hhigh⟩
  simp only [divWord]
  rw [hhigh, hlow, hdiv, Nat.zero_mul, Nat.zero_add]

/-- The quotient of half a word fits in half a word, so that of a word fits in a word. -/
theorem divWord_fst_lt (hd : 0 < d) (hr : r < d) (hp : p < B * B) :
    (r % B * B + p / B) / d < B ∧ ((r % B * B + p / B) % d % B * B + p % B) / d < B := by
  have hB : 0 < B := Nat.pos_of_ne_zero fun h ↦ by simp [h] at hp
  have hhalf (a b : Nat) (ha : a < d) (hb : b < B) : (a % B * B + b) / d < B := by
    rw [Nat.div_lt_iff_lt_mul hd]
    have hmul := Nat.mul_le_mul_right B ((Nat.mod_le a B).trans_lt ha)
    rw [Nat.succ_mul] at hmul
    rw [Nat.mul_comm B]
    omega
  exact ⟨hhalf r (p / B) hr ((Nat.div_lt_iff_lt_mul hB).mpr hp),
    hhalf _ (p % B) (Nat.mod_lt _ hd) (Nat.mod_lt _ hB)⟩

end Word

/-! ### Words that are moved -/

section Moved

variable {B d r p : Nat} (hB : 0 < B) (hd : 0 < d) (hp : p < B * B)
include hB hd hp

/-- A zero quotient leaves the word itself as the remainder. -/
theorem divWord_snd_of_zero (h : (divWord B d r p).1 = 0) : (divWord B d r p).2 = p := by
  have hword := (divWord_of_lt hB hd hp (h ▸ hB)).1
  rw [hword] at h ⊢
  exact Nat.mod_eq_of_lt ((Nat.div_eq_zero_iff_lt hd).mp h)

/-- After a word that loses something and has the quotient zero, the quotient of the next word
is not the one that this word should have. -/
theorem not_moved {q : Nat} (hq : q < B * B) (hnot : ¬Carries B d r p)
    (hzero : (divWord B d r p).1 = 0)
    (hmoved : (divWord B d p q).1 = (r * (B * B) + p) / d) :
    (divWord B d p q).2 < (r * (B * B) + p) % d := by
  have hle := divWord_le B d p q
  have hexact := Nat.div_add_mod (r * (B * B) + p) d
  rw [Nat.mul_comm, ← hmoved] at hexact
  by_contra hge
  -- The remainder before the word fits, so the one within it does not.
  have hr : r < B := by
    have hle := le_of_word_le (a := r) (b := p % B) (x := p) hq (by omega)
    exact hle.trans_lt (Nat.mod_lt p hB)
  have hhigh := (divWord_of_lt hB hd hp (hzero ▸ hB)).2
  rw [Nat.mod_eq_of_lt hr] at hhigh
  have hlost : B ≤ r * B + p / B := by
    rw [← hhigh]
    exact Nat.le_of_not_lt fun hlt ↦ hnot ⟨hr, hlt⟩
  have hsplit : r * (B * B) + p = (r * B + p / B) * B + p % B := by
    rw [Nat.add_mul, Nat.mul_assoc, Nat.add_assoc, Nat.mul_comm (p / B), Nat.div_add_mod]
  have hhighlt : r * B + p / B < d := by
    rw [← hhigh]
    exact Nat.mod_lt _ hd
  -- So the quotient is less than half a word, and the next word has it by itself.
  have hhalf : (divWord B d p q).1 < B := by
    rw [hmoved, Nat.div_lt_iff_lt_mul hd, hsplit]
    have hmod := Nat.mod_lt p hB
    have hmul' := Nat.mul_le_mul_right B hhighlt
    rw [Nat.succ_mul] at hmul'
    rw [Nat.mul_comm B]
    omega
  have hword := (divWord_of_lt hB hd hq hhalf).1
  have hq' := Nat.div_add_mod q d
  rw [hword] at hexact hge
  rw [Nat.mul_comm] at hq'
  have hlarge := Nat.mul_le_mul_right B hlost
  dsimp only at hexact hge
  omega

end Moved

/-! ### Zero words at the end -/

section Compact

variable {c : Nat} {cs ts : List Nat}

@[simp] theorem compact_nil : compact [] = [] := rfl

@[simp] theorem compact_cons_of_ne (h : c ≠ 0) : compact (c :: cs) = c :: compact cs := by
  simp [compact, h]

@[simp] theorem compact_zero_cons : compact (0 :: cs) = compact cs ++ [0] := by
  have hzeros : cs.filter (· = 0) = List.replicate (cs.filter (· = 0)).length 0 :=
    List.eq_replicate_of_mem fun c hc ↦ of_decide_eq_true (List.mem_filter.mp hc).2
  have hcons : 0 :: cs.filter (· = 0) = cs.filter (· = 0) ++ [0] := by
    rw [hzeros, ← List.replicate_succ, List.replicate_succ']
  simp [compact, hcons]

theorem compact_singleton (c : Nat) : compact [c] = [c] := by
  by_cases h : c = 0 <;> simp [h]

theorem length_compact : (compact cs).length = cs.length := by
  induction cs with
  | nil => rfl
  | cons c cs ih => by_cases h : c = 0 <;> simp [h, ih]

theorem mem_compact : c ∈ compact cs ↔ c ∈ cs := by
  simp only [compact, List.mem_append, List.mem_filter]
  by_cases h : c = 0 <;> simp [h]

theorem compact_of_forall_zero (h : ∀ c ∈ cs, c = 0) : compact cs = cs := by
  have hne : cs.filter (· ≠ 0) = [] := List.filter_eq_nil_iff.mpr (by simpa using h)
  have hzero : cs.filter (· = 0) = cs := List.filter_eq_self.mpr (by simpa using h)
  rw [compact, hne, hzero, List.nil_append]

/-- A zero word that stays in the first place has zero words only after it. -/
theorem forall_zero_of_compact (h : compact (0 :: cs) = 0 :: ts) : ∀ c ∈ cs, c = 0 := by
  intro c hc
  by_contra hne
  have hmem : c ∈ cs.filter (· ≠ 0) := List.mem_filter.mpr ⟨hc, by simpa using hne⟩
  obtain ⟨x, xs, hx⟩ := List.exists_cons_of_ne_nil (List.ne_nil_of_mem hmem)
  have hx0 : x ∈ cs.filter (· ≠ 0) := hx ▸ List.mem_cons_self
  have hhead : x = 0 := by
    rw [compact, List.filter_cons_of_neg (by simp), hx, List.cons_append] at h
    exact (List.cons.inj h).1
  exact of_decide_eq_true (List.mem_filter.mp hx0).2 hhead

theorem compact_tail (h : compact (c :: cs) = c :: ts) : compact cs = ts := by
  by_cases hc : c = 0
  · subst hc
    have hzero := forall_zero_of_compact h
    rw [compact_of_forall_zero (List.forall_mem_cons.mpr ⟨rfl, hzero⟩)] at h
    rw [compact_of_forall_zero hzero, (List.cons.inj h).2]
  · rw [compact_cons_of_ne hc] at h
    exact (List.cons.inj h).2

end Compact

/-! ### All words -/

section Words

variable {B d r : Nat} {ps : List Nat}

theorem length_divWords : (divWords B d r ps).length = ps.length := by
  induction ps generalizing r with
  | nil => rfl
  | cons p ps ih => rw [divWords, List.length_cons, List.length_cons, ih]

theorem divWords_lt (hd : 0 < d) (hr : r < d) (hps : ∀ p ∈ ps, p < B * B) :
    ∀ c ∈ divWords B d r ps, c < B * B := by
  induction ps generalizing r with
  | nil => simp [divWords]
  | cons p ps ih =>
    obtain ⟨hp, hps⟩ := List.forall_mem_cons.mp hps
    refine List.forall_mem_cons.mpr ⟨?_, ih (divWord_snd_lt hd) hps⟩
    obtain ⟨hhigh, hlow⟩ := divWord_fst_lt hd hr hp
    have hmul := Nat.mul_le_mul_right B hhigh
    rw [Nat.succ_mul] at hmul
    simp only [divWord]
    omega

theorem length_exactWords : (exactWords B d r ps).length = ps.length := by
  induction ps generalizing r with
  | nil => rfl
  | cons p ps ih => rw [exactWords, List.length_cons, List.length_cons, ih]

/-- Where all remainders fit, the quotient words are exact. -/
theorem divWords_of_allCarry (hd : 0 < d) (h : AllCarry B d r ps) :
    divWords B d r ps = exactWords B d r ps := by
  induction ps generalizing r with
  | nil => rfl
  | cons p ps ih =>
    rw [divWords, exactWords, divWord_of_carries hd h.1, ih h.2]

/-- A divisor of half a word has remainders of half a word. -/
theorem allCarry_of_le (hd : 0 < d) (hdB : d ≤ B) (hr : r < d) : AllCarry B d r ps := by
  induction ps generalizing r with
  | nil => trivial
  | cons p ps ih =>
    exact ⟨⟨hr.trans_le hdB, (Nat.mod_lt _ hd).trans_le hdB⟩, ih (Nat.mod_lt _ hd)⟩

/-- The quotient of a word fits in a word. -/
theorem exactWord_lt {p : Nat} (hd : 0 < d) (hr : r < d) (hp : p < B * B) :
    (r * (B * B) + p) / d < B * B := by
  rw [Nat.div_lt_iff_lt_mul hd]
  have hmul := Nat.mul_le_mul_right (B * B) hr
  rw [Nat.succ_mul] at hmul
  rw [Nat.mul_comm (B * B)]
  omega

theorem exactWords_lt (hd : 0 < d) (hr : r < d) (hps : ∀ p ∈ ps, p < B * B) :
    ∀ t ∈ exactWords B d r ps, t < B * B := by
  induction ps generalizing r with
  | nil => simp [exactWords]
  | cons p ps ih =>
    obtain ⟨hp, hps⟩ := List.forall_mem_cons.mp hps
    exact List.forall_mem_cons.mpr ⟨exactWord_lt hd hr hp, ih (Nat.mod_lt _ hd) hps⟩

theorem le_valueFrom (hB : 0 < B) (a : Nat) (ps : List Nat) : a ≤ valueFrom B a ps := by
  induction ps generalizing a with
  | nil => exact Nat.le_refl a
  | cons p ps ih =>
    have hmul := Nat.le_mul_of_pos_right a (Nat.mul_pos hB hB)
    exact (hmul.trans (Nat.le_add_right _ p)).trans (ih _)

/-- The exact quotient words stand for the quotient. -/
theorem valueFrom_exactWords (hd : 0 < d) (a : Nat) (ps : List Nat) (hr : r < d) :
    valueFrom B a (exactWords B d r ps) = valueFrom B (a * d + r) ps / d := by
  induction ps generalizing a r with
  | nil =>
    rw [exactWords, valueFrom, valueFrom, List.foldl_nil, List.foldl_nil, Nat.mul_comm,
      Nat.mul_add_div hd, Nat.div_eq_of_lt hr, Nat.add_zero]
  | cons p ps ih =>
    have hstep : (a * (B * B) + (r * (B * B) + p) / d) * d + (r * (B * B) + p) % d =
        (a * d + r) * (B * B) + p := by
      have hsplit := Nat.div_add_mod (r * (B * B) + p) d
      rw [Nat.mul_comm] at hsplit
      rw [Nat.add_mul, Nat.add_assoc, hsplit]
      ring
    have hrest := ih (a * (B * B) + (r * (B * B) + p) / d) (Nat.mod_lt (r * (B * B) + p) hd)
    rw [hstep] at hrest
    exact hrest

/-- Words of a number that fit are determined by it. -/
theorem valueFrom_inj {xs ys : List Nat} {a b : Nat} (hlen : xs.length = ys.length)
    (hxs : ∀ x ∈ xs, x < B * B) (hys : ∀ y ∈ ys, y < B * B)
    (h : valueFrom B a xs = valueFrom B b ys) : a = b ∧ xs = ys := by
  induction xs generalizing a b ys with
  | nil =>
    obtain rfl := List.eq_nil_of_length_eq_zero hlen.symm
    exact ⟨h, rfl⟩
  | cons x xs ih =>
    cases ys with
    | nil => cases hlen
    | cons y ys =>
      obtain ⟨hx, hxs⟩ := List.forall_mem_cons.mp hxs
      obtain ⟨hy, hys⟩ := List.forall_mem_cons.mp hys
      obtain ⟨hhead, rfl⟩ := ih (Nat.succ.inj hlen) hxs hys h
      have hdiv := congrArg (· / (B * B)) hhead
      have hmod := congrArg (· % (B * B)) hhead
      have hBB : 0 < B * B := by omega
      simp only [Nat.mul_add_mod_self_right, Nat.mod_eq_of_lt hx, Nat.mod_eq_of_lt hy] at hmod
      simp only [Nat.mul_comm _ (B * B), Nat.mul_add_div hBB, Nat.div_eq_of_lt hx,
        Nat.div_eq_of_lt hy, Nat.add_zero] at hdiv
      exact ⟨hdiv, hmod ▸ rfl⟩

/-- All quotient words are zero when the number is less than the divisor. -/
theorem exactWords_zero_iff (hB : 0 < B) (hd : 0 < d) (hr : r < d) :
    (∀ t ∈ exactWords B d r ps, t = 0) ↔ valueFrom B r ps < d := by
  induction ps generalizing r with
  | nil => simpa [exactWords, valueFrom] using hr
  | cons p ps ih =>
    rw [exactWords, List.forall_mem_cons, ih (Nat.mod_lt _ hd), Nat.div_eq_zero_iff_lt hd]
    constructor
    · rintro ⟨hlt, hrest⟩
      rwa [Nat.mod_eq_of_lt hlt] at hrest
    · intro hvalue
      have hlt : r * (B * B) + p < d := (le_valueFrom hB _ ps).trans_lt hvalue
      rw [Nat.mod_eq_of_lt hlt]
      exact ⟨hlt, hvalue⟩

/-- The exact words have their zero words at the end. -/
theorem compact_exactWords_iff (hB : 0 < B) (hd : 0 < d) (hr : r < d) :
    compact (exactWords B d r ps) = exactWords B d r ps ↔ ZerosLast B d r ps := by
  induction ps generalizing r with
  | nil => simp [exactWords, ZerosLast]
  | cons p ps ih =>
    rw [exactWords, ZerosLast, ← ih (Nat.mod_lt _ hd)]
    by_cases hlt : r * (B * B) + p < d
    · rw [Nat.div_eq_of_lt hlt, Nat.mod_eq_of_lt hlt]
      have hzero : (∀ t ∈ exactWords B d (r * (B * B) + p) ps, t = 0) ↔
          valueFrom B (r * (B * B) + p) ps < d := exactWords_zero_iff hB hd hlt
      constructor
      · intro h
        exact ⟨fun _ ↦ hzero.mp (forall_zero_of_compact h), compact_tail h⟩
      · rintro ⟨hvalue, -⟩
        exact compact_of_forall_zero (List.forall_mem_cons.mpr ⟨rfl, hzero.mpr (hvalue hlt)⟩)
    · have hne : (r * (B * B) + p) / d ≠ 0 := by rwa [Ne, Nat.div_eq_zero_iff_lt hd]
      rw [compact_cons_of_ne hne, List.cons.injEq]
      simp [hlt]

end Words

/-! ### Moved zero words never repair a quotient -/

section Lost

variable {B d r p : Nat} (hB : 0 < B) (hd : 0 < d) (hdB : d < B * B) (hp : p < B * B)
include hB hd hdB hp

/-- Two words, of which the first loses something and has the quotient zero. -/
theorem compact_pair_ne {q : Nat} (hq : q < B * B) (hnot : ¬Carries B d r p)
    (hzero : (divWord B d r p).1 = 0) :
    compact [(divWord B d p q).1] ++ [0] ≠ exactWords B d r [p, q] := by
  intro h
  simp only [compact_singleton, exactWords, List.singleton_append, List.cons.injEq] at h
  obtain ⟨hmoved, hlast, -⟩ := h
  have hlt := not_moved hB hd hp hq hnot hzero hmoved
  have hnone := (eq_zero_of_word_div hd hdB.le hlast.symm).1
  omega

/-- Three words, of which the first loses something and has the quotient zero. -/
theorem compact_triple_ne {q s : Nat} (hq : q < B * B)
    (hnot : ¬Carries B d r p) (hzero : (divWord B d r p).1 = 0) :
    compact [(divWord B d p q).1, (divWord B d (divWord B d p q).2 s).1] ++ [0] ≠
      exactWords B d r [p, q, s] := by
  intro h
  by_cases hc : (divWord B d p q).1 = 0
  · -- Both zero words are moved, so the last word has the first quotient.
    rw [hc, compact_zero_cons, compact_singleton, divWord_snd_of_zero hB hd hq hc] at h
    simp only [exactWords, List.cons_append, List.nil_append, List.cons.injEq] at h
    obtain ⟨hmoved, hsecond, hlast, -⟩ := h
    obtain ⟨hnone, hqd⟩ := eq_zero_of_word_div hd hdB.le hsecond.symm
    rw [hnone, Nat.zero_mul, Nat.zero_add, Nat.mod_eq_of_lt hqd] at hlast
    obtain ⟨rfl, hsd⟩ := eq_zero_of_word_div hd hdB.le hlast.symm
    have hle := divWord_le B d 0 s
    rw [hmoved, Nat.zero_mod, Nat.zero_mul, Nat.zero_add] at hle
    have hfirst : (r * (B * B) + p) / d = 0 := by
      by_contra hne
      have hge := Nat.le_mul_of_pos_left d (Nat.pos_of_ne_zero hne)
      omega
    have hlost := divWord_lt_of_not_carries hB hd hdB.le hnot
    omega
  · rw [compact_cons_of_ne hc, compact_singleton] at h
    simp only [exactWords, List.cons_append, List.nil_append, List.cons.injEq] at h
    obtain ⟨hmoved, hsecond, hlast, -⟩ := h
    have hlt := not_moved hB hd hp hq hnot hzero hmoved
    -- The exact division stops after the second word.
    obtain ⟨hrest, hsd⟩ := eq_zero_of_word_div hd hdB.le hlast.symm
    have hexact := Nat.div_add_mod ((r * (B * B) + p) % d * (B * B) + q) d
    rw [hrest, Nat.add_zero, Nat.mul_comm, ← hsecond] at hexact
    have hle := divWord_le B d (divWord B d p q).2 s
    have hmod := Nat.mul_le_mul_right (B * B) (Nat.mod_le (divWord B d p q).2 B)
    have hback : (r * (B * B) + p) % d ≤ (divWord B d p q).2 :=
      le_of_word_le (x := q) (hsd.trans hdB) (by omega)
    omega

/-- Among at most three words, one that loses something leaves a wrong quotient. -/
theorem compact_divWords_ne {ps : List Nat} (hps : ∀ q ∈ ps, q < B * B) (hlen : ps.length ≤ 2)
    (hnot : ¬Carries B d r p) :
    compact (divWords B d r (p :: ps)) ≠ exactWords B d r (p :: ps) := by
  have hlost := divWord_lt_of_not_carries hB hd hdB.le hnot
  rw [divWords]
  by_cases hzero : (divWord B d r p).1 = 0
  · rw [hzero, compact_zero_cons, divWord_snd_of_zero hB hd hp hzero]
    match ps, hps, hlen with
    | [], _, _ =>
      intro h
      have hhead := (List.cons.inj h).1
      omega
    | [q], hps, _ =>
      exact compact_pair_ne hB hd hdB hp (hps q List.mem_cons_self) hnot hzero
    | [q, s], hps, _ =>
      exact compact_triple_ne hB hd hdB hp (hps q List.mem_cons_self) hnot hzero
  · rw [compact_cons_of_ne hzero]
    intro h
    have hhead := (List.cons.inj h).1
    omega

end Lost

/-! ### The quotient of up to four words -/

section Quotient

variable {B d : Nat} (hB : 0 < B) (hd : 0 < d) (hdB : d < B * B)
include hB hd hdB

/-- Up to three words after a remainder have the right quotient only when all remainders fit. -/
theorem allCarry_of_compact {r : Nat} {ps : List Nat} (hps : ∀ p ∈ ps, p < B * B)
    (hlen : ps.length ≤ 3) (h : compact (divWords B d r ps) = exactWords B d r ps) :
    AllCarry B d r ps := by
  induction ps generalizing r with
  | nil => trivial
  | cons p ps ih =>
    obtain ⟨hp, hps⟩ := List.forall_mem_cons.mp hps
    by_cases hcarry : Carries B d r p
    · refine ⟨hcarry, ih hps (Nat.le_of_succ_le hlen) ?_⟩
      rw [divWords, exactWords, divWord_of_carries hd hcarry] at h
      exact compact_tail h
    · exact absurd h (compact_divWords_ne hB hd hdB hp hps (Nat.le_of_succ_le_succ hlen) hcarry)

theorem compact_divWords_iff {ps : List Nat} (hps : ∀ p ∈ ps, p < B * B)
    (hlen : ps.length ≤ 4) :
    compact (divWords B d 0 ps) = exactWords B d 0 ps ↔
      AllCarry B d 0 ps ∧ ZerosLast B d 0 ps := by
  constructor
  · intro h
    have hcarry : AllCarry B d 0 ps := by
      cases ps with
      | nil => trivial
      | cons p ps =>
        obtain ⟨hp, hps⟩ := List.forall_mem_cons.mp hps
        have hfirst := carries_zero (d := d) hB hp
        rw [divWords, exactWords, divWord_of_carries hd hfirst] at h
        exact ⟨hfirst,
          allCarry_of_compact hB hd hdB hps (Nat.le_of_succ_le_succ hlen) (compact_tail h)⟩
    rw [divWords_of_allCarry hd hcarry] at h
    exact ⟨hcarry, (compact_exactWords_iff hB hd hd).mp h⟩
  · rintro ⟨hcarry, hzeros⟩
    rw [divWords_of_allCarry hd hcarry]
    exact (compact_exactWords_iff hB hd hd).mpr hzeros

/-- Up to four words are divided to the quotient exactly when no remainder loses anything and
no zero word of the quotient stands before another word. -/
theorem valueFrom_compact_iff {ps : List Nat} (hps : ∀ p ∈ ps, p < B * B)
    (hlen : ps.length ≤ 4) :
    valueFrom B 0 (compact (divWords B d 0 ps)) = valueFrom B 0 ps / d ↔
      AllCarry B d 0 ps ∧ ZerosLast B d 0 ps := by
  have hexact := valueFrom_exactWords (B := B) hd 0 ps hd
  rw [Nat.zero_mul, Nat.zero_add] at hexact
  rw [← compact_divWords_iff hB hd hdB hps hlen, ← hexact]
  constructor
  · intro h
    refine (valueFrom_inj ?_ ?_ (exactWords_lt hd hd hps) h).2
    · rw [length_compact, length_divWords, length_exactWords]
    · intro c hc
      exact divWords_lt hd hd hps c (mem_compact.mp hc)
  · intro h
    rw [h]

end Quotient

end SilverPow.Base.LongDivision
