import Mathlib.Data.List.Basic

/-!
# Base64

`btoa` and `atob` of the web platform, over lists of code points below 256: the encoding in groups of
three with padding, and the forgiving decoding, which drops white space and optional padding and fails
on anything else.

## Main definitions

* `Base64.btoa`, `Base64.atob`.

## Main results

* `Base64.atob_btoa`: what was encoded decodes to itself.
-/

namespace Base64

/-! ### Six bits at a time -/

def alphabet : List Char := "ABCDEFGHIJKLMNOPQRSTUVWXYZabcdefghijklmnopqrstuvwxyz0123456789+/".toList

def digit (value : Nat) : Char := alphabet.getD value 'A'

def value (c : Char) : Option Nat := alphabet.idxOf? c

/-- The six-bit values of a text; the last one of a group is filled up with zeros. -/
def values : List Char → List Nat
  | [] => []
  | [a] => [a.toNat / 4, a.toNat % 4 * 16]
  | [a, b] => [a.toNat / 4, a.toNat % 4 * 16 + b.toNat / 16, b.toNat % 16 * 4]
  | a :: b :: c :: s =>
    (a.toNat / 4) :: (a.toNat % 4 * 16 + b.toNat / 16) :: (b.toNat % 16 * 4 + c.toNat / 64) ::
      (c.toNat % 64) :: values s

/-- The text of six-bit values, without the bits that are left over. -/
def text : List Nat → Option (List Char)
  | [] => some []
  | [_] => none
  | [a, b] => some [Char.ofNat (a * 4 + b / 16)]
  | [a, b, c] => some [Char.ofNat (a * 4 + b / 16), Char.ofNat (b % 16 * 16 + c / 4)]
  | a :: b :: c :: d :: s => (text s).map fun rest =>
    Char.ofNat (a * 4 + b / 16) :: Char.ofNat (b % 16 * 16 + c / 4) :: Char.ofNat (c % 4 * 64 + d) ::
      rest

/-! ### The two functions -/

variable (s : List Char)

/-- `btoa` on code points below 256 (it throws on others). -/
def btoa : List Char := (values s).map digit ++ List.replicate ((3 - s.length % 3) % 3) '='

/-- The white space that decoding skips. -/
def isSpace (c : Char) : Bool := c = '\t' || c = '\n' || c = '\x0C' || c = '\r' || c = ' '

/-- Without one or two `=` at the end. -/
def dropPadding : List Char :=
  match s.reverse with
  | '=' :: '=' :: rest => rest.reverse
  | '=' :: rest => rest.reverse
  | _ => s

/-- `atob`; none where it throws. -/
def atob : Option (List Char) :=
  let s := s.filter fun c => !isSpace c
  let s := if s.length % 4 = 0 then dropPadding s else s
  (s.mapM value).bind text

/-! ### Decoding what was encoded -/

theorem digit_spec : ∀ v < 64, value (digit v) = some v ∧ isSpace (digit v) = false ∧ digit v ≠ '=' := by
  decide

theorem values_lt (h : ∀ c ∈ s, c.toNat < 256) : ∀ v ∈ values s, v < 64 := by
  induction s using values.induct with
  | case1 => simp [values]
  | case2 a =>
    have ha := h a (by simp)
    simp [values]
    omega
  | case3 a b =>
    have ha := h a (by simp)
    have hb := h b (by simp)
    simp [values]
    omega
  | case4 a b c s ih =>
    have ha := h a (by simp)
    have hb := h b (by simp)
    have hc := h c (by simp)
    have hrest := ih fun x hx => h x (by simp [hx])
    simp only [values, List.forall_mem_cons]
    exact ⟨by omega, by omega, by omega, by omega, hrest⟩

theorem ofNat_eq {c : Char} {n : Nat} (h : n = c.toNat) : Char.ofNat n = c := by
  rw [h, Char.ofNat_toNat]

theorem text_values (h : ∀ c ∈ s, c.toNat < 256) : text (values s) = some s := by
  induction s using values.induct with
  | case1 => rfl
  | case2 a =>
    have ha := h a (by simp)
    simp only [values, text]
    rw [ofNat_eq (c := a) (by omega)]
  | case3 a b =>
    have ha := h a (by simp)
    have hb := h b (by simp)
    simp only [values, text]
    rw [ofNat_eq (c := a) (by omega), ofNat_eq (c := b) (by omega)]
  | case4 a b c s ih =>
    have ha := h a (by simp)
    have hb := h b (by simp)
    have hc := h c (by simp)
    simp only [values, text, ih fun x hx => h x (by simp [hx]), Option.map_some]
    rw [ofNat_eq (c := a) (by omega), ofNat_eq (c := b) (by omega), ofNat_eq (c := c) (by omega)]

theorem length_values : (values s).length + (3 - s.length % 3) % 3 = (s.length + 2) / 3 * 4 := by
  induction s using values.induct with
  | case1 => rfl
  | case2 a => simp [values]
  | case3 a b => simp [values]
  | case4 a b c s ih =>
    simp only [values, List.length_cons]
    omega

theorem dropPadding_append {s : List Char} (hs : ∀ c ∈ s, c ≠ '=') {n : Nat} (hn : n < 3) :
    dropPadding (s ++ List.replicate n '=') = s := by
  have hlast : ∀ rest, s.reverse ≠ '=' :: rest := by
    intro rest h
    exact hs '=' (by rw [← List.mem_reverse, h]; simp) rfl
  unfold dropPadding
  rw [List.reverse_append, List.reverse_replicate]
  obtain rfl | rfl | rfl : n = 0 ∨ n = 1 ∨ n = 2 := by omega
  · simp only [List.replicate_zero, List.nil_append, List.append_nil]
    split
    · rename_i h
      exact absurd h (hlast _)
    · rename_i h
      exact absurd h (hlast _)
    · rfl
  · simp only [List.replicate_one, List.singleton_append]
    exact List.reverse_reverse s
  · simp [List.replicate]

theorem mapM_value_digit {l : List Nat} (h : ∀ v ∈ l, v < 64) : (l.map digit).mapM value = some l := by
  induction l with
  | nil => rfl
  | cons v l ih =>
    rw [List.map_cons, List.mapM_cons, (digit_spec v (h v (by simp))).1, ih fun w hw => h w (by simp [hw])]
    rfl

/-- What was encoded decodes to itself. -/
theorem atob_btoa {s : List Char} (h : ∀ c ∈ s, c.toNat < 256) : atob (btoa s) = some s := by
  have hvalues := values_lt s h
  have hspace : (btoa s).filter (fun c => !isSpace c) = btoa s := by
    refine List.filter_eq_self.mpr fun c hc => ?_
    rcases List.mem_append.mp hc with hc | hc
    · obtain ⟨v, hv, rfl⟩ := List.mem_map.mp hc
      rw [(digit_spec v (hvalues v hv)).2.1]
      rfl
    · rw [List.eq_of_mem_replicate hc]
      decide
  have hlength : (btoa s).length % 4 = 0 := by
    rw [btoa, List.length_append, List.length_map, List.length_replicate, length_values]
    omega
  have hpadding : dropPadding (btoa s) = (values s).map digit := by
    refine dropPadding_append (fun c hc => ?_) (Nat.mod_lt _ (by decide))
    obtain ⟨v, hv, rfl⟩ := List.mem_map.mp hc
    exact (digit_spec v (hvalues v hv)).2.2
  simp only [atob, hspace, hlength, if_true, hpadding, mapM_value_digit hvalues, Option.bind_some]
  exact text_values s h

end Base64
