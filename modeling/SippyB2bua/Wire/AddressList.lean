import SippyB2bua.Wire.Lines

/-!
# Lists of addresses

A header of one of the address classes cuts its text at the commas, counting the brackets
and the quotes before each of them. What a list of values joined with commas gives depends
on these counts only: each value but the last must close what it opens, and no value may
have a comma where everything before it is closed.
-/

namespace SippyB2bua.Wire
open Lib (Text)
open Lib.Text (strip isSpace)
open HfType (addresses topLevel)

/-- The classes made from `SipAddressHF`. -/
def HfType.addressTypes : List HfType :=
  [sipFrom, sipTo, sipRecordRoute, sipRoute, sipContact, sipAlso, sipReferTo, sipCCDiversion,
    sipReferredBy, sipPAssertedIdentity, sipDiversion, sipPath]

def joined (vs : List Text) : Text := [','].intercalate vs

def addressLine (n : Text) (vs : List Text) : Text := n ++ ':' :: ' ' :: joined vs

/-- The line gives one header for each value, in this order. -/
def SplitsExactly (n : Text) (vs : List Text) : Prop :=
  ∀ r, readHeaders r [addressLine n vs] = .ok { r with headers := r.headers ++ vs.map (lineHeader n) }

/-- No comma of the value stands where the text before it is closed. -/
def Whole (s l : Text) : Prop := ∀ p q, l = p ++ ',' :: q → topLevel (s ++ p) = false

/-- Each value but the last is closed, and none can be cut. -/
structure Separable (vs : List Text) : Prop where
  closed : ∀ v ∈ vs.dropLast, topLevel v = true
  whole : ∀ v ∈ vs, Whole [] v

section Addresses
variable {s l v : Text} {vs : List Text} {c : Char}

theorem joined_cons (hne : vs ≠ []) : joined (v :: vs) = v ++ ',' :: joined vs := by
  rw [joined, List.intercalate_cons_of_ne_nil hne]
  simp [joined]

theorem joined_single : joined [v] = v := List.intercalate_singleton

theorem whole_nil : Whole s [] := by
  intro p q h
  exact absurd h (by simp)

theorem whole_cons : Whole s (c :: l) ↔ (c = ',' → topLevel s = false) ∧ Whole (s ++ [c]) l := by
  constructor
  · intro h
    constructor
    · rintro rfl
      simpa using h [] l rfl
    · intro p q hl
      have hp := h (c :: p) q (by rw [hl, List.cons_append])
      rwa [List.append_cons] at hp
  · rintro ⟨hc, hl⟩ p q h
    cases p with
    | nil =>
      rw [List.append_nil]
      exact hc (List.cons.inj h).1
    | cons d p =>
      obtain ⟨rfl, hrest⟩ := List.cons.inj h
      rw [List.append_cons]
      exact hl p q hrest

theorem addresses_whole (h : Whole s l) : addresses s l = [s ++ l] := by
  induction l generalizing s with
  | nil => rw [addresses, List.append_nil]
  | cons c l ih =>
    obtain ⟨hc, hl⟩ := whole_cons.mp h
    rw [addresses, if_neg, ih hl, ← List.append_cons]
    rintro ⟨rfl, htop⟩
    rw [hc rfl] at htop
    exact absurd htop (by simp)

theorem addresses_cut (h : Whole s l) (htop : topLevel (s ++ l) = true) (rest : Text) :
    addresses s (l ++ ',' :: rest) = (s ++ l) :: addresses [] rest := by
  induction l generalizing s with
  | nil =>
    rw [List.append_nil] at htop
    rw [List.nil_append, addresses, if_pos ⟨rfl, htop⟩, List.append_nil]
  | cons c l ih =>
    obtain ⟨hc, hl⟩ := whole_cons.mp h
    rw [List.append_cons] at htop
    rw [List.cons_append, addresses, if_neg, ih hl htop, ← List.append_cons]
    rintro ⟨rfl, hs⟩
    rw [hc rfl] at hs
    exact absurd hs (by simp)

/-- What is read of the pieces of a text: the first of them starts with `s`. -/
theorem addresses_cases (s l : Text) : (Whole s l ∧ addresses s l = [s ++ l]) ∨
    ∃ p q, l = p ++ ',' :: q ∧ Whole s p ∧ topLevel (s ++ p) = true ∧
      addresses s l = (s ++ p) :: addresses [] q := by
  induction l generalizing s with
  | nil => exact .inl ⟨whole_nil, addresses_whole whole_nil⟩
  | cons c l ih =>
    by_cases hcut : c = ',' ∧ topLevel s = true
    · obtain ⟨rfl, htop⟩ := hcut
      refine .inr ⟨[], l, rfl, whole_nil, by rwa [List.append_nil], ?_⟩
      rw [addresses, if_pos ⟨rfl, htop⟩, List.append_nil]
    · have hc : c = ',' → topLevel s = false := fun hc => by
        simpa using fun htop => hcut ⟨hc, htop⟩
      have hstep : addresses s (c :: l) = addresses (s ++ [c]) l := by
        rw [addresses, if_neg hcut]
      rcases ih (s ++ [c]) with ⟨hl, heq⟩ | ⟨p, q, rfl, hp, htop, heq⟩
      · refine .inl ⟨whole_cons.mpr ⟨hc, hl⟩, ?_⟩
        rw [hstep, heq, ← List.append_cons]
      · refine .inr ⟨c :: p, q, rfl, whole_cons.mpr ⟨hc, hp⟩, ?_, ?_⟩
        · rwa [List.append_cons]
        · rw [hstep, heq, ← List.append_cons]

theorem addresses_separable (l : Text) : Separable (addresses [] l) := by
  induction hn : l.length using Nat.strong_induction_on generalizing l with
  | _ n ih =>
    rcases addresses_cases [] l with ⟨hl, heq⟩ | ⟨p, q, rfl, hp, htop, heq⟩
    · rw [heq]
      exact ⟨by simp, by simpa using hl⟩
    · obtain ⟨hclosed, hwhole⟩ := ih q.length (by rw [← hn]; simp; omega) q rfl
      rw [heq]
      constructor
      · intro v hv
        rw [List.dropLast_cons_of_ne_nil (addresses_ne_nil [] q)] at hv
        rcases List.mem_cons.mp hv with rfl | hv
        · exact htop
        · exact hclosed v hv
      · intro v hv
        rcases List.mem_cons.mp hv with rfl | hv
        · exact hp
        · exact hwhole v hv

theorem Separable.tail (h : Separable (v :: vs)) : Separable vs := by
  constructor
  · intro u hu
    cases vs with
    | nil => exact absurd hu (by simp)
    | cons w vs => exact h.closed u (List.mem_cons_of_mem v hu)
  · exact fun u hu => h.whole u (List.mem_cons_of_mem v hu)

/-- The values come back from their list exactly if the counts tell them apart. -/
theorem addresses_joined (hne : vs ≠ []) : addresses [] (joined vs) = vs ↔ Separable vs := by
  constructor
  · intro h
    rw [← h]
    exact addresses_separable _
  · intro h
    induction vs with
    | nil => exact absurd rfl hne
    | cons v vs ih =>
      have hv : Whole [] v := h.whole v List.mem_cons_self
      cases vs with
      | nil => rw [joined_single, addresses_whole hv, List.nil_append]
      | cons w vs =>
        have htop : topLevel ([] ++ v) = true := h.closed v (by simp)
        rw [joined_cons (by simp), addresses_cut hv htop, ih (by simp) h.tail, List.nil_append]

end Addresses

section Lines
variable {n l : Text} {vs : List Text}

theorem bodys_addresses {t : HfType} (ht : t ∈ HfType.addressTypes) (l : Text) :
    t.bodys l = addresses [] l := by
  simp only [HfType.addressTypes, List.mem_cons, List.not_mem_nil, or_false] at ht
  rcases ht with rfl | rfl | rfl | rfl | rfl | rfl | rfl | rfl | rfl | rfl | rfl | rfl <;> rfl

theorem kept_addresses : ∀ t ∈ HfType.addressTypes, ∀ b, Kept ⟨t.hfName, .raw t b⟩ = true := by
  intro t ht b
  have h : ∀ t ∈ HfType.addressTypes, t.hfName ≠ contentType ∧ t.hfName ≠ contentLength := by
    unfold HfType.hfName HfType.hfNames
    repeat rewrite [String.toList_ofList]
    decide +kernel
  simpa [Kept] using h t ht

theorem strip_joined (h : ∀ v ∈ vs, strip v = v) : strip (joined vs) = joined vs := by
  induction vs with
  | nil => rfl
  | cons v vs ih =>
    have hv : strip v = v := h v List.mem_cons_self
    cases vs with
    | nil => rwa [joined_single]
    | cons w vs =>
      have hrest := ih fun u hu => h u (List.mem_cons_of_mem v hu)
      rw [joined_cons (by simp)]
      exact Lib.Text.strip_append_sep (by decide) hv hrest

theorem mapM_eq_ok {f : Text → Except ParseExn SipHeader} {g : Text → SipHeader} {bs : List Text}
    (h : ∀ b ∈ bs, f b = .ok (g b)) : bs.mapM f = .ok (bs.map g) := by
  induction bs with
  | nil => rfl
  | cons b bs ih =>
    rw [List.mapM_cons, h b List.mem_cons_self, ih fun b' hb => h b' (List.mem_cons_of_mem b hb)]
    rfl

theorem ofLine_addresses (hn : ':' ∉ n) (ht : lineType n ∈ HfType.addressTypes) (hl : strip l = l) :
    SipHeader.ofLine (n ++ ':' :: ' ' :: l) = .ok ((addresses [] l).map (lineHeader n)) := by
  have hstrip : strip (' ' :: l) = l := by rw [Lib.Text.strip_cons_space (by decide), hl]
  have hpiece : ∀ b ∈ addresses [] l, SipHeader.ofText (strip n) b = .ok (lineHeader n b) := by
    intro b hb
    have hone : (lineType n).bodys b = [b] := by
      rw [bodys_addresses ht, addresses_whole ((addresses_separable l).whole b hb), List.nil_append]
    simp only [SipHeader.ofText, lineHeader, lineType] at hone ⊢
    rw [hone]
  rcases addresses_cases [] l with ⟨hwhole, heq⟩ | ⟨p, q, rfl, hp, htop, heq⟩
  · have hone : (lineType n).bodys (strip (' ' :: l)) = [l] := by
      rw [hstrip, bodys_addresses ht, heq, List.nil_append]
    rw [ofLine_single hn hone, hstrip, heq]
    rfl
  · obtain ⟨b, bs, hq⟩ := List.exists_cons_of_ne_nil (addresses_ne_nil [] q)
    have htext : SipHeader.ofText (strip n) (p ++ ',' :: q) = .error (p :: b :: bs) := by
      have hbodys := bodys_addresses ht (p ++ ',' :: q)
      rw [heq, hq] at hbodys
      simp only [SipHeader.ofText, lineType] at hbodys ⊢
      rw [hbodys]
      rfl
    unfold SipHeader.ofLine
    rw [Lib.Text.split1_append hn]
    dsimp only
    rw [hstrip, htext]
    dsimp only
    rw [heq, hq] at hpiece ⊢
    apply mapM_eq_ok
    intro b' hb'
    rw [hpiece b' hb']

theorem lineHeader_injective (n : Text) : Function.Injective (lineHeader n) := by
  intro b b' h
  have htext := congrArg (fun h : SipHeader => h.body.localStr none) h
  exact htext

theorem foldl_add_all {hs : List SipHeader} (h : ∀ x ∈ hs, Kept x = true) (r : Read) :
    hs.foldl Read.add r = { r with headers := r.headers ++ hs } := by
  induction hs generalizing r with
  | nil => simp
  | cons x hs ih =>
    have hx : x.name ≠ contentType ∧ x.name ≠ contentLength := by
      simpa [Kept] using h x List.mem_cons_self
    rw [List.foldl_cons, Read.add, if_neg hx.1, if_neg hx.2,
      ih fun y hy => h y (List.mem_cons_of_mem x hy)]
    simp

/-- A list of addresses is read back exactly if its values are separable. -/
theorem addresses_split_exactly (hn : ':' ∉ n) (ht : lineType n ∈ HfType.addressTypes) (hne : vs ≠ [])
    (hvs : ∀ v ∈ vs, strip v = v) : SplitsExactly n vs ↔ Separable vs := by
  have hkept : ∀ bs : List Text, ∀ x ∈ bs.map (lineHeader n), Kept x = true := by
    intro bs x hx
    obtain ⟨b, -, rfl⟩ := List.mem_map.mp hx
    exact kept_addresses _ ht b
  have hread (r : Read) : readHeaders r [addressLine n vs] =
      .ok { r with headers := r.headers ++ (addresses [] (joined vs)).map (lineHeader n) } := by
    rw [readHeaders, addressLine, ofLine_addresses hn ht (strip_joined hvs)]
    dsimp only
    rw [foldl_add_all (hkept _)]
    rfl
  rw [← addresses_joined hne]
  constructor
  · intro h
    have hstart := h ⟨[], none, none⟩
    rw [hread] at hstart
    have hheaders := congrArg Read.headers (Except.ok.inj hstart)
    simp only [List.nil_append] at hheaders
    exact (lineHeader_injective n).list_map hheaders
  · intro h r
    rw [hread, h]

/-- Two speed dials, with a comma and brackets in the name and in the URL of the first. -/
def speedDials : List Text :=
  ["\"Desk, <1>\" <sip:1,2@example.com>;q=1".toList, "sip:3@example.com".toList]

theorem addresses_split_exactly_speedDials :
    SplitsExactly "Contact".toList speedDials ↔ Separable speedDials :=
  addresses_split_exactly (by decide) (by decide +kernel) (by decide) (by decide +kernel)

end Lines

section Named
variable {q u : Text}

def named (q u : Text) : Text := '"' :: q ++ '"' :: ' ' :: '<' :: u ++ ['>']

theorem append_comma_cases {a b p r : Text} {c : Char} (h : a ++ c :: b = p ++ ',' :: r)
    (hc : c ≠ ',') : (∃ a', a = p ++ ',' :: a') ∨ ∃ p', p = a ++ c :: p' ∧ b = p' ++ ',' :: r := by
  rcases List.append_eq_append_iff.mp h with ⟨p', hp, hb⟩ | ⟨a', ha, hr⟩
  · cases p' with
    | nil => exact absurd (List.cons.inj hb).1 hc
    | cons d p' =>
      obtain ⟨rfl, hrest⟩ := List.cons.inj hb
      exact .inr ⟨p', hp, hrest⟩
  · cases a' with
    | nil => exact absurd (List.cons.inj hr).1.symm hc
    | cons d a' =>
      obtain ⟨rfl, -⟩ := List.cons.inj hr
      exact .inl ⟨a', ha⟩

theorem topLevel_iff (s : Text) : topLevel s = true ↔
    (s.count '<' = 0 ∧ s.count '>' = 0 ∧ s.count '"' = 0) ∨
      (0 < s.count '<' ∧ s.count '<' = s.count '>' ∧ s.count '"' % 2 = 0) := by
  simp [topLevel, and_assoc]

/-- Brackets within quotes do not count where they are balanced and no quote is escaped. -/
theorem named_closed (hq : '"' ∉ q) (hbalance : q.count '<' = q.count '>')
    (hu : '<' ∉ u ∧ '>' ∉ u ∧ '"' ∉ u) : topLevel (named q u) = true ∧ Whole [] (named q u) := by
  have hquotes : q.count '"' = 0 := List.count_eq_zero.mpr hq
  constructor
  · rw [topLevel_iff]
    simp [named, hquotes, hbalance, List.count_eq_zero.mpr hu.1,
      List.count_eq_zero.mpr hu.2.1, List.count_eq_zero.mpr hu.2.2]
  · intro p r h
    rw [List.nil_append, Bool.eq_false_iff, ne_eq, topLevel_iff]
    have hsplit : ('"' :: q) ++ '"' :: (' ' :: '<' :: u ++ ['>']) = p ++ ',' :: r := by
      rw [← h]
      simp [named]
    rcases append_comma_cases hsplit (by decide) with ⟨q', hq'⟩ | ⟨p', rfl, hp'⟩
    · -- within the quotes: only the first of them was seen
      cases p with
      | nil => exact absurd (List.cons.inj hq').1 (by decide)
      | cons d p =>
        obtain ⟨rfl, rfl⟩ := List.cons.inj hq'
        have hone : p.count '"' = 0 := List.count_eq_zero.mpr fun hp =>
          hq (List.mem_append_left _ hp)
        simp [hone]
    · -- within the brackets: one more was opened
      have hrest : ([' ', '<'] ++ u) ++ '>' :: [] = p' ++ ',' :: r := by simpa using hp'
      rcases append_comma_cases hrest (by decide) with ⟨u', hu'⟩ | ⟨r', -, hr'⟩
      · obtain ⟨p'', rfl⟩ : ∃ p'', p' = ' ' :: '<' :: p'' := by
          match p', hu' with
          | [], hu' => exact absurd (List.cons.inj hu').1 (by decide)
          | [_], hu' => exact absurd (List.cons.inj (List.cons.inj hu').2).1 (by decide)
          | c :: d :: p'', hu' =>
            obtain ⟨rfl, hd⟩ := List.cons.inj hu'
            obtain ⟨rfl, -⟩ := List.cons.inj hd
            exact ⟨p'', rfl⟩
        obtain rfl : u = p'' ++ ',' :: u' := by simpa using hu'
        simp only [List.mem_append, not_or] at hu
        simp [hquotes, hbalance, List.count_eq_zero.mpr hu.1.1,
          List.count_eq_zero.mpr hu.2.1.1]
      · exact absurd hr' (by simp)

end Named

def nicknames : List Text := ["\"a\\\"b\" <sip:c@d>".toList, "<sip:e@f>".toList]

/-- The two addresses make one header. -/
theorem escaped_quote_merged : ¬ SplitsExactly "Contact".toList nicknames := by
  intro h
  have hone : (readHeaders ⟨[], none, none⟩ [addressLine "Contact".toList nicknames]).toOption.map
      (fun r => r.headers.length) = some 1 := by
    decide +kernel
  rw [h] at hone
  exact absurd hone (by simp [Except.toOption, nicknames])

end SippyB2bua.Wire
