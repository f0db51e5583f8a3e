import MevRelay.ServiceLoop
import Mathlib.Data.List.Forall2
import Mathlib.Data.List.TakeWhile
import Mathlib.Tactic.SplitIfs

/-!
# The loop on text that is not ASCII

`connect_sse` decodes each chunk on its own. A chunk that ends inside a character of several bytes
leaves one replacement character for what it has of it, and each byte of the rest is one more at the
beginning of the next chunk. Nothing else changes: the lines stay the lines (`loop_reads_utf8`).
So cuts do no harm where they fall into comments, and are harmless altogether only when the fields
are ASCII or no cut falls inside a character.
-/

namespace MevRelay

namespace Text

/-! ## Characters as bytes -/

/-- The UTF-8 of a text. -/
def utf8 (text : List Char) : List UInt8 := text.flatMap String.utf8EncodeChar

/-- A character as UTF-8: the first byte announces the bytes that follow it. -/
structure Encodes (c : Char) (b : UInt8) (tail : List UInt8) : Prop where
  width : utf8Width b = tail.length + 1
  continuation : ∀ x ∈ tail, isContinuation x = true
  second : ∀ x rest, tail = x :: rest → isSecond b x = true
  decoded : decodeChar b tail = c
  ascii : c.toNat < 0x80 → tail = []

theorem isContinuation_iff {b : UInt8} :
    isContinuation b = true ↔ 0x80 ≤ b.toNat ∧ b.toNat ≤ 0xbf := by
  simp [isContinuation, UInt8.le_iff_toNat_le]

theorem utf8Width_eq (b : UInt8) :
    utf8Width b = if b.toNat < 0x80 then 1 else if 0xc2 ≤ b.toNat ∧ b.toNat ≤ 0xdf then 2
      else if 0xe0 ≤ b.toNat ∧ b.toNat ≤ 0xef then 3
      else if 0xf0 ≤ b.toNat ∧ b.toNat ≤ 0xf4 then 4 else 0 := by
  simp [utf8Width, UInt8.le_iff_toNat_le, UInt8.lt_iff_toNat_lt]

theorem isSecond_iff {b c : UInt8} :
    isSecond b c = true ↔ isContinuation c = true ∧ (b.toNat = 0xe0 → 0xa0 ≤ c.toNat) ∧
      (b.toNat = 0xed → c.toNat ≤ 0x9f) ∧ (b.toNat = 0xf0 → 0x90 ≤ c.toNat) ∧
      (b.toNat = 0xf4 → c.toNat ≤ 0x8f) := by
  have hb : ∀ k : UInt8, (b == k) = decide (b.toNat = k.toNat) := by
    intro k
    rw [Bool.eq_iff_iff]
    simp [UInt8.toNat_inj]
  unfold isSecond
  simp only [hb, decide_eq_true_eq, isContinuation_iff]
  split_ifs <;>
    simp only [Bool.and_eq_true, decide_eq_true_eq, UInt8.le_iff_toNat_le, isContinuation_iff,
      UInt8.reduceToNat] at * <;> omega

/-- A character of several bytes, from the numbers that they are. -/
theorem encodes_of_second {c : Char} {b x : UInt8} {rest : List UInt8} (hb : 0x80 ≤ b.toNat)
    (hwidth : utf8Width b = rest.length + 2) (hx : isSecond b x = true)
    (hrest : ∀ y ∈ rest, isContinuation y = true) (hc : 0x80 ≤ c.toNat)
    (hvalue : (x :: rest).foldl (fun n y => n * 64 + y.toNat % 64)
      (b.toNat % 2 ^ (7 - utf8Width b)) = c.toNat) : Encodes c b (x :: rest) where
  width := hwidth
  continuation := List.forall_mem_cons.mpr ⟨(isSecond_iff.mp hx).1, hrest⟩
  second := by
    intro x' rest' h
    cases h
    exact hx
  decoded := by
    have hge : ¬ b < 0x80 := by
      rw [UInt8.lt_iff_toNat_lt]
      exact Nat.not_lt.mpr hb
    rw [decodeChar, if_neg hge, if_pos (show (x :: rest).length + 1 = _ from hwidth.symm), hvalue]
    exact Char.ofNat_toNat c
  ascii := by omega

/-- The four forms of a character. -/
theorem utf8EncodeChar_cases (c : Char) :
    (c.toNat ≤ 0x7f ∧ String.utf8EncodeChar c = [.ofNat c.toNat]) ∨
    (0x7f < c.toNat ∧ c.toNat ≤ 0x7ff ∧ String.utf8EncodeChar c =
      [.ofNat (c.toNat / 64 % 32 + 0xc0), .ofNat (c.toNat % 64 + 0x80)]) ∨
    (0x7ff < c.toNat ∧ c.toNat ≤ 0xffff ∧ String.utf8EncodeChar c =
      [.ofNat (c.toNat / 4096 % 16 + 0xe0), .ofNat (c.toNat / 64 % 64 + 0x80),
        .ofNat (c.toNat % 64 + 0x80)]) ∨
    (0xffff < c.toNat ∧ String.utf8EncodeChar c =
      [.ofNat (c.toNat / 262144 % 8 + 0xf0), .ofNat (c.toNat / 4096 % 64 + 0x80),
        .ofNat (c.toNat / 64 % 64 + 0x80), .ofNat (c.toNat % 64 + 0x80)]) := by
  unfold String.utf8EncodeChar
  show _ ∨ _ ∧ _ ∧ (if c.toNat ≤ 0x7f then _ else _) = _ ∨ _
  grind [Char.toNat]

theorem toNat_ofNat {n : Nat} (h : n < 256) : (UInt8.ofNat n).toNat = n :=
  UInt8.toNat_ofNat_of_lt' h

/-- Every character is written so. -/
theorem exists_encodes (c : Char) :
    ∃ b tail, String.utf8EncodeChar c = b :: tail ∧ Encodes c b tail := by
  have hscalar : c.toNat < 0xd800 ∨ 0xdfff < c.toNat ∧ c.toNat < 0x110000 := c.valid
  have hlast : (UInt8.ofNat (c.toNat % 64 + 0x80)).toNat = c.toNat % 64 + 0x80 :=
    toNat_ofNat (by omega)
  have hlower : (UInt8.ofNat (c.toNat / 64 % 64 + 0x80)).toNat = c.toNat / 64 % 64 + 0x80 :=
    toNat_ofNat (by omega)
  have hupper : (UInt8.ofNat (c.toNat / 4096 % 64 + 0x80)).toNat = c.toNat / 4096 % 64 + 0x80 :=
    toNat_ofNat (by omega)
  rcases utf8EncodeChar_cases c with
    ⟨h, hencode⟩ | ⟨h, h', hencode⟩ | ⟨h, h', hencode⟩ | ⟨h, hencode⟩
  · have hb : (UInt8.ofNat c.toNat).toNat = c.toNat := toNat_ofNat (by omega)
    refine ⟨_, _, hencode, ?_, ?_, ?_, ?_, fun _ => rfl⟩
    · rw [utf8Width_eq, hb, if_pos (by omega)]
      rfl
    · intro x hx
      cases hx
    · intro x rest hx
      cases hx
    · rw [decodeChar, if_pos, hb]
      · exact Char.ofNat_toNat c
      · rw [UInt8.lt_iff_toNat_lt, hb]
        show c.toNat < 128
        omega
  · have hb : (UInt8.ofNat (c.toNat / 64 % 32 + 0xc0)).toNat = c.toNat / 64 % 32 + 0xc0 :=
      toNat_ofNat (by omega)
    have hwidth : utf8Width (.ofNat (c.toNat / 64 % 32 + 0xc0)) = 2 := by
      rw [utf8Width_eq, hb]
      grind
    refine ⟨_, _, hencode, encodes_of_second (by omega) hwidth ?_ ?_ (by omega) ?_⟩
    · rw [isSecond_iff, isContinuation_iff, hb, hlast]
      omega
    · intro y hy
      cases hy
    · show _ * 64 + _ = _
      rw [hwidth, hb, hlast]
      omega
  · have hb : (UInt8.ofNat (c.toNat / 4096 % 16 + 0xe0)).toNat = c.toNat / 4096 % 16 + 0xe0 :=
      toNat_ofNat (by omega)
    have hwidth : utf8Width (.ofNat (c.toNat / 4096 % 16 + 0xe0)) = 3 := by
      rw [utf8Width_eq, hb]
      grind
    refine ⟨_, _, hencode, encodes_of_second (by omega) hwidth ?_ ?_ (by omega) ?_⟩
    · rw [isSecond_iff, isContinuation_iff, hb, hlower]
      omega
    · intro y hy
      rw [List.mem_singleton.mp hy, isContinuation_iff, hlast]
      omega
    · show (_ * 64 + _) * 64 + _ = _
      rw [hwidth, hb, hlast, hlower]
      omega
  · have hb : (UInt8.ofNat (c.toNat / 262144 % 8 + 0xf0)).toNat = c.toNat / 262144 % 8 + 0xf0 :=
      toNat_ofNat (by omega)
    have hwidth : utf8Width (.ofNat (c.toNat / 262144 % 8 + 0xf0)) = 4 := by
      rw [utf8Width_eq, hb]
      grind
    refine ⟨_, _, hencode, encodes_of_second (by omega) hwidth ?_ ?_ (by omega) ?_⟩
    · rw [isSecond_iff, isContinuation_iff, hb, hupper]
      omega
    · intro y hy
      rcases List.mem_cons.mp hy with rfl | hy
      · rw [isContinuation_iff, hlower]
        omega
      · rw [List.mem_singleton.mp hy, isContinuation_iff, hlast]
        omega
    · show ((_ * 64 + _) * 64 + _) * 64 + _ = _
      rw [hwidth, hb, hlast, hlower, hupper]
      omega

/-! ## Reading the bytes of a text -/

theorem lossyFrom_skip (skipped rest : List UInt8) :
    lossyFrom skipped.length (skipped ++ rest) = fromUtf8Lossy rest := by
  induction skipped with
  | nil => rfl
  | cons b skipped ih => exact ih

theorem fromUtf8Lossy_cons (b : UInt8) (rest : List UInt8) :
    fromUtf8Lossy (b :: rest) =
      decodeChar b (followers b rest) :: lossyFrom (followers b rest).length rest := rfl

theorem followers_of_second {b x : UInt8} {more : List UInt8} (hwidth : 2 ≤ utf8Width b)
    (hx : isSecond b x = true) :
    followers b (x :: more) = x :: (more.take (utf8Width b - 2)).takeWhile isContinuation := by
  rw [followers, if_pos]
  simp [hwidth, hx]

/-- All the bytes of a character are taken, and no others. -/
theorem Encodes.followers_append {c : Char} {b : UInt8} {tail : List UInt8} (h : Encodes c b tail)
    (rest : List UInt8) : followers b (tail ++ rest) = tail := by
  have hwidth := h.width
  cases tail with
  | nil =>
    cases rest with
    | nil => rfl
    | cons x rest => simp [followers, hwidth]
  | cons x more =>
    rw [List.length_cons] at hwidth
    have hmore : ∀ y ∈ more, isContinuation y = true :=
      fun y hy => h.continuation y (List.mem_cons_of_mem x hy)
    rw [List.cons_append, followers_of_second (by omega) (h.second x more rfl),
      List.take_left' (show more.length = utf8Width b - 2 by omega),
      List.takeWhile_eq_self_iff.mpr hmore]

/-- As many as there are of them. -/
theorem Encodes.followers_prefix {c : Char} {b : UInt8} {q r : List UInt8}
    (h : Encodes c b (q ++ r)) : followers b q = q := by
  have hwidth := h.width
  cases q with
  | nil => rfl
  | cons x more =>
    rw [List.length_append, List.length_cons] at hwidth
    have hmore : ∀ y ∈ more, isContinuation y = true :=
      fun y hy => h.continuation y (by simp [hy])
    rw [followers_of_second (by omega) (h.second x _ rfl), List.take_of_length_le (by omega),
      List.takeWhile_eq_self_iff.mpr hmore]

/-- A character that is all there is read as it is. -/
theorem fromUtf8Lossy_char (c : Char) (rest : List UInt8) :
    fromUtf8Lossy (String.utf8EncodeChar c ++ rest) = c :: fromUtf8Lossy rest := by
  obtain ⟨b, tail, hencode, henc⟩ := exists_encodes c
  rw [hencode, List.cons_append, fromUtf8Lossy_cons, henc.followers_append, henc.decoded,
    lossyFrom_skip]

theorem fromUtf8Lossy_utf8 (text : List Char) (rest : List UInt8) :
    fromUtf8Lossy (utf8 text ++ rest) = text ++ fromUtf8Lossy rest := by
  induction text with
  | nil => rfl
  | cons c text ih =>
    unfold utf8 at ih ⊢
    rw [List.flatMap_cons, List.append_assoc, fromUtf8Lossy_char, ih]
    rfl

/-- A text is read back from its bytes. -/
theorem fromUtf8Lossy_text (text : List Char) : fromUtf8Lossy (utf8 text) = text := by
  have htext := fromUtf8Lossy_utf8 text []
  rw [List.append_nil] at htext
  exact htext.trans (List.append_nil text)

theorem utf8_append (text text' : List Char) : utf8 (text ++ text') = utf8 text ++ utf8 text' :=
  List.flatMap_append

/-- Texts that are read one by one are read as one. -/
theorem utf8_flatMap {chunks : List (List UInt8)}
    (h : ∀ chunk ∈ chunks, ∃ piece, chunk = utf8 piece) :
    utf8 (chunks.flatMap fromUtf8Lossy) = chunks.flatten := by
  induction chunks with
  | nil => rfl
  | cons chunk chunks ih =>
    obtain ⟨piece, rfl⟩ := h chunk List.mem_cons_self
    have hrest := ih fun other hother => h other (List.mem_cons_of_mem _ hother)
    rw [List.flatMap_cons, List.flatten_cons, fromUtf8Lossy_text, utf8_append, hrest]

/-- A character with its last bytes cut off is one replacement. -/
theorem fromUtf8Lossy_cut {c : Char} {q r : List UInt8} (hc : String.utf8EncodeChar c = q ++ r)
    (hq : q ≠ []) (hr : r ≠ []) : fromUtf8Lossy q = ['\uFFFD'] := by
  obtain ⟨b, tail, hencode, henc⟩ := exists_encodes c
  cases q with
  | nil => exact absurd rfl hq
  | cons b' q =>
    rw [hencode, List.cons_append, List.cons.injEq] at hc
    obtain ⟨rfl, rfl⟩ := hc
    have hwidth := henc.width
    have hpos : 0 < r.length := List.length_pos_of_ne_nil hr
    rw [List.length_append] at hwidth
    have hbyte : ¬ b < 0x80 := by
      intro hlt
      rw [utf8Width, if_pos hlt] at hwidth
      omega
    have hlossy := lossyFrom_skip q []
    rw [List.append_nil] at hlossy
    rw [fromUtf8Lossy_cons, henc.followers_prefix, hlossy, decodeChar, if_neg hbyte,
      if_neg (by omega)]
    rfl

/-- A byte from the middle of a character is a replacement of its own. -/
theorem fromUtf8Lossy_continuation {bytes : List UInt8}
    (h : ∀ b ∈ bytes, isContinuation b = true) (rest : List UInt8) :
    fromUtf8Lossy (bytes ++ rest) =
      List.replicate bytes.length '\uFFFD' ++ fromUtf8Lossy rest := by
  induction bytes with
  | nil => rfl
  | cons b bytes ih =>
    have hb := isContinuation_iff.mp (h b List.mem_cons_self)
    have hwidth : utf8Width b = 0 := by
      rw [utf8Width_eq]
      grind
    have hfollowers : followers b (bytes ++ rest) = [] := by
      cases bytes ++ rest with
      | nil => rfl
      | cons x more => simp [followers, hwidth]
    have hbyte : ¬ b < 0x80 := by
      rw [UInt8.lt_iff_toNat_lt]
      exact Nat.not_lt.mpr hb.1
    rw [List.cons_append, fromUtf8Lossy_cons, hfollowers, decodeChar, if_neg hbyte, hwidth,
      if_neg (by simp), List.length_cons, List.replicate_succ, List.cons_append,
      ← ih fun x hx => h x (List.mem_cons_of_mem b hx)]
    rfl

/-! ## Cutting the bytes of a text -/

/-- Where the bytes of a text are cut: between two characters or inside one. -/
theorem cut_cases {text : List Char} {front back : List UInt8} (h : utf8 text = front ++ back) :
    (∃ before after, text = before ++ after ∧ front = utf8 before ∧ back = utf8 after) ∨
    (∃ before c after q r, text = before ++ c :: after ∧ String.utf8EncodeChar c = q ++ r ∧
      q ≠ [] ∧ r ≠ [] ∧ front = utf8 before ++ q ∧ back = r ++ utf8 after) := by
  induction text generalizing front with
  | nil =>
    obtain ⟨rfl, rfl⟩ := List.append_eq_nil_iff.mp h.symm
    exact .inl ⟨[], [], rfl, rfl, rfl⟩
  | cons c text ih =>
    have hcons : ∀ after, utf8 (c :: after) = String.utf8EncodeChar c ++ utf8 after :=
      fun _ => List.flatMap_cons
    rw [hcons] at h
    rcases List.append_eq_append_iff.mp h with ⟨more, rfl, hmore⟩ | ⟨r, hchar, rfl⟩
    · rcases ih hmore with
        ⟨before, after, rfl, rfl, rfl⟩ | ⟨before, d, after, q, r, rfl, hd, hq, hr, rfl, rfl⟩
      · exact .inl ⟨c :: before, after, rfl, (hcons before).symm, rfl⟩
      · refine .inr ⟨c :: before, d, after, q, r, rfl, hd, hq, hr, ?_, rfl⟩
        rw [hcons, List.append_assoc]
    · by_cases hfront : front = []
      · subst hfront
        refine .inl ⟨[], c :: text, rfl, rfl, ?_⟩
        rw [hcons, hchar]
        rfl
      · by_cases hr : r = []
        · subst hr
          refine .inl ⟨[c], text, rfl, ?_, rfl⟩
          rw [hcons, hchar, List.append_nil]
          exact (List.append_nil front).symm
        · exact .inr ⟨[], c, text, front, r, rfl, hchar, hfront, hr, rfl, rfl⟩

/-- The second text is the first, but for some characters of several bytes: each of them is replaced
by at least two U+FFFD and by no more than it has bytes. -/
inductive Blurred : List Char → List Char → Prop where
  | nil : Blurred [] []
  | keep (c : Char) {text seen : List Char} :
    Blurred text seen → Blurred (c :: text) (c :: seen)
  | blur (c : Char) (n : Nat) {text seen : List Char} (two_le : 2 ≤ n)
    (le_length : n ≤ (String.utf8EncodeChar c).length) :
    Blurred text seen → Blurred (c :: text) (List.replicate n '\uFFFD' ++ seen)

theorem Blurred.length_le {text seen : List Char} (h : Blurred text seen) :
    text.length ≤ seen.length := by
  induction h with
  | nil => exact Nat.le_refl 0
  | keep c _ ih => exact Nat.succ_le_succ ih
  | blur c n two_le le_length _ ih =>
    rw [List.length_append, List.length_replicate, List.length_cons]
    omega

theorem Blurred.keep_all {text seen : List Char} (before : List Char) (h : Blurred text seen) :
    Blurred (before ++ text) (before ++ seen) := by
  induction before with
  | nil => exact h
  | cons c before ih => exact ih.keep c

/-- What follows the first byte of a character. -/
theorem continuation_of_append {c : Char} {q r : List UInt8}
    (hc : String.utf8EncodeChar c = q ++ r) (hq : q ≠ []) :
    ∀ b ∈ r, isContinuation b = true := by
  obtain ⟨b, tail, hencode, henc⟩ := exists_encodes c
  cases q with
  | nil => exact absurd rfl hq
  | cons b' q =>
    rw [hencode, List.cons_append, List.cons.injEq] at hc
    obtain ⟨rfl, rfl⟩ := hc
    intro x hx
    exact henc.continuation x (List.mem_append_right q hx)

/-- What is read of chunks that hold a text, after the last bytes of a character that is cut off. -/
theorem exists_blurred {chunks : List (List UInt8)} {pending : List UInt8} {text : List Char}
    (hpending : ∀ b ∈ pending, isContinuation b = true)
    (h : chunks.flatten = pending ++ utf8 text) :
    ∃ seen, chunks.flatMap fromUtf8Lossy =
        List.replicate pending.length '\uFFFD' ++ seen ∧ Blurred text seen ∧
      (pending = [] → seen = text → ∀ chunk ∈ chunks, ∃ piece, chunk = utf8 piece) := by
  induction chunks generalizing pending text with
  | nil =>
    obtain ⟨rfl, htext⟩ := List.append_eq_nil_iff.mp h.symm
    have hnil : text = [] := by
      cases text with
      | nil => rfl
      | cons c text =>
        rw [utf8, List.flatMap_cons] at htext
        exact absurd (List.append_eq_nil_iff.mp htext).1 String.utf8EncodeChar_ne_nil
    subst hnil
    refine ⟨[], rfl, .nil, fun _ _ chunk hchunk => ?_⟩
    cases hchunk
  | cons chunk chunks ih =>
    rw [List.flatten_cons] at h
    rw [List.flatMap_cons]
    rcases List.append_eq_append_iff.mp h with ⟨later, rfl, hlater⟩ | ⟨front, rfl, hfront⟩
    · -- the chunk ends before the character does, or with it
      obtain ⟨seen, hread, hblurred, hpieces⟩ :=
        ih (fun b hb => hpending b (List.mem_append_right chunk hb)) hlater
      have hchunk := fromUtf8Lossy_continuation
        (fun b hb => hpending b (List.mem_append_left later hb)) []
      rw [List.append_nil] at hchunk
      refine ⟨seen, ?_, hblurred, ?_⟩
      · show _ = List.replicate (chunk ++ later).length _ ++ seen
        rw [hchunk, hread, List.length_append, ← List.replicate_append_replicate,
          List.append_assoc, List.append_assoc]
        rfl
      · intro hnil hseen
        obtain ⟨rfl, rfl⟩ := List.append_eq_nil_iff.mp hnil
        exact List.forall_mem_cons.mpr ⟨⟨[], rfl⟩, hpieces rfl hseen⟩
    · rw [fromUtf8Lossy_continuation hpending, List.append_assoc]
      rcases cut_cases hfront with
        ⟨before, after, rfl, rfl, hback⟩ |
        ⟨before, c, after, q, r, rfl, hc, hq, hr, rfl, hback⟩
      · -- the chunk ends between two characters
        obtain ⟨seen, hread, hblurred, hpieces⟩ :=
          ih (fun b hb => (List.not_mem_nil hb).elim) (hback.trans (List.nil_append _).symm)
        refine ⟨before ++ seen, ?_, hblurred.keep_all before, ?_⟩
        · rw [hread, fromUtf8Lossy_text]
          simp
        · rintro rfl hseen
          exact List.forall_mem_cons.mpr
            ⟨⟨before, rfl⟩, hpieces rfl (List.append_cancel_left hseen)⟩
      · -- the chunk ends inside a character
        obtain ⟨seen, hread, hblurred, -⟩ := ih (continuation_of_append hc hq) hback
        have hpos : 0 < q.length := List.length_pos_of_ne_nil hq
        have hrpos : 0 < r.length := List.length_pos_of_ne_nil hr
        refine ⟨before ++ (List.replicate (r.length + 1) '\uFFFD' ++ seen), ?_,
          (hblurred.blur c (r.length + 1) (by omega) ?_).keep_all before, ?_⟩
        · rw [hread, fromUtf8Lossy_utf8, fromUtf8Lossy_cut hc hq hr, List.replicate_succ]
          simp
        · rw [hc, List.length_append]
          omega
        · -- there is one character more than there was
          rintro - hseen
          have hlength := congrArg List.length (List.append_cancel_left hseen)
          have hle := hblurred.length_le
          rw [List.length_append, List.length_replicate, List.length_cons] at hlength
          omega

/-! ## The lines of a blurred text -/

namespace Blurred

/-- Characters of one byte are not blurred. -/
theorem length_eq_one {c : Char} (hc : c.toNat < 0x80) :
    (String.utf8EncodeChar c).length = 1 := by
  obtain ⟨b, tail, hencode, henc⟩ := exists_encodes c
  rw [hencode, henc.ascii hc]
  rfl

theorem eq_of_ascii {text seen : List Char} (h : Blurred text seen)
    (hascii : ∀ c ∈ text, c.toNat < 0x80) : seen = text := by
  induction h with
  | nil => rfl
  | keep c _ ih => rw [ih fun d hd => hascii d (List.mem_cons_of_mem c hd)]
  | blur c n two_le le_length _ ih =>
    have hone := length_eq_one (hascii c List.mem_cons_self)
    omega

/-- What is ASCII in it was in the text. -/
theorem mem_of_ascii {text seen : List Char} (h : Blurred text seen) {c : Char}
    (hc : c.toNat < 0x80) (hmem : c ∈ seen) : c ∈ text := by
  induction h with
  | nil => exact hmem
  | keep d _ ih =>
    rcases List.mem_cons.mp hmem with rfl | hmem
    · exact List.mem_cons_self
    · exact List.mem_cons_of_mem d (ih hmem)
  | blur d n two_le le_length _ ih =>
    rcases List.mem_append.mp hmem with hmem | hmem
    · rw [List.eq_of_mem_replicate hmem] at hc
      exact absurd hc (by decide)
    · exact List.mem_cons_of_mem d (ih hmem)

theorem of_append {front back seen : List Char} (h : Blurred (front ++ back) seen) :
    ∃ seen' seen'', seen = seen' ++ seen'' ∧ Blurred front seen' ∧ Blurred back seen'' := by
  induction front generalizing seen with
  | nil => exact ⟨[], seen, rfl, .nil, h⟩
  | cons c front ih =>
    cases h with
    | keep _ h =>
      obtain ⟨seen', seen'', rfl, hfront, hback⟩ := ih h
      exact ⟨c :: seen', seen'', rfl, hfront.keep c, hback⟩
    | blur _ n two_le le_length h =>
      obtain ⟨seen', seen'', rfl, hfront, hback⟩ := ih h
      exact ⟨_, seen'', (List.append_assoc _ _ _).symm, hfront.blur c n two_le le_length, hback⟩

theorem of_cons_ascii {c : Char} {text seen : List Char} (h : Blurred (c :: text) seen)
    (hc : c.toNat < 0x80) : ∃ rest, seen = c :: rest ∧ Blurred text rest := by
  cases h with
  | keep _ h => exact ⟨_, rfl, h⟩
  | blur _ n two_le le_length h =>
    rw [length_eq_one hc] at le_length
    omega

/-- An ASCII text at the beginning is at the beginning of both. -/
theorem prefix_iff {front text seen : List Char} (hfront : ∀ c ∈ front, c.toNat < 0x80)
    (h : Blurred text seen) : front <+: seen ↔ front <+: text := by
  induction front generalizing text seen with
  | nil => exact iff_of_true List.nil_prefix List.nil_prefix
  | cons c front ih =>
    have hc := hfront c List.mem_cons_self
    have hrest := fun d hd => hfront d (List.mem_cons_of_mem c hd)
    cases h with
    | nil => exact Iff.rfl
    | keep d h => rw [List.cons_prefix_cons, List.cons_prefix_cons, ih hrest h]
    | blur d n two_le le_length h =>
      obtain ⟨m, rfl⟩ : ∃ m, n = m + 1 := ⟨n - 1, by omega⟩
      rw [List.replicate_succ, List.cons_append, List.cons_prefix_cons, List.cons_prefix_cons]
      apply iff_of_false
      · rintro ⟨rfl, -⟩
        exact absurd hc (by decide)
      · rintro ⟨rfl, -⟩
        have hone := length_eq_one hc
        omega

/-- The lines are blurred one by one. -/
theorem lines {text seen : List Char} (h : Blurred text seen) :
    List.Forall₂ Blurred (terminatedLines text) (terminatedLines seen) ∧
      Blurred (unterminatedLine text) (unterminatedLine seen) := by
  induction hlen : text.length using Nat.strongRecOn generalizing text seen with
  | _ n ih =>
    by_cases hmem : '\n' ∈ text
    · obtain ⟨line, rest, rfl, hline⟩ := List.eq_append_cons_of_mem hmem
      obtain ⟨line', seen', rfl, hblurred, htail⟩ := h.of_append
      obtain ⟨rest', rfl, hrest⟩ := htail.of_cons_ascii (by decide)
      have hline' : '\n' ∉ line' := fun hmem' => hline (hblurred.mem_of_ascii (by decide) hmem')
      obtain ⟨hlines, hlast⟩ := ih rest.length (by simp at hlen; omega) hrest rfl
      rw [(terminatedLines_line hline rest).1, (terminatedLines_line hline rest).2,
        (terminatedLines_line hline' rest').1, (terminatedLines_line hline' rest').2]
      exact ⟨.cons hblurred hlines, hlast⟩
    · have hseen : '\n' ∉ seen := fun hmem' => hmem (h.mem_of_ascii (by decide) hmem')
      rw [(terminatedLines_of_not_mem hmem).1, (terminatedLines_of_not_mem hmem).2,
        (terminatedLines_of_not_mem hseen).1, (terminatedLines_of_not_mem hseen).2]
      exact ⟨.nil, h⟩

end Blurred

end Text

namespace RelayService

open Atomic Text

variable (json : EventJson)

/-! ## The loop -/

/-- The chunks before the first error. -/
def received : List (Except String (List UInt8)) → List (List UInt8)
  | [] => []
  | .ok bytes :: rest => bytes :: received rest
  | .error _ :: _ => []

theorem textOf_eq (byteStream : List (Except String (List UInt8))) :
    textOf byteStream = (received byteStream).flatMap fromUtf8Lossy := by
  induction byteStream with
  | nil => rfl
  | cons chunk rest ih =>
    cases chunk with
    | error e => rfl
    | ok bytes => rw [textOf, received, List.flatMap_cons, ih]

/-- The line sets the type of the next event or carries its data. -/
def IsField (line : List Char) : Prop :=
  "event: ".toList <+: line ∨ "data: ".toList <+: line

instance (line : List Char) : Decidable (IsField line) := inferInstanceAs (Decidable (_ ∨ _))

theorem dropPrefix?_eq_none {front line : List Char} (h : ¬ front <+: line) :
    line.dropPrefix? front = none := by
  rw [Option.eq_none_iff_forall_ne_some]
  intro rest hrest
  obtain ⟨front', rfl, hfront⟩ := List.dropPrefix?_eq_some_iff.mp hrest
  rw [beq_iff_eq] at hfront
  exact h (hfront ▸ List.prefix_append front' rest)

/-- All other lines are passed over. -/
theorem processSseLine_of_not_isField {line : List Char} (h : ¬ IsField line)
    (currentEvent : Option (List Char)) :
    processSseLine json line currentEvent = (none, currentEvent) := by
  obtain ⟨hevent, hdata⟩ := not_or.mp h
  unfold processSseLine
  split
  · rfl
  · rw [dropPrefix?_eq_none hevent, dropPrefix?_eq_none hdata]

theorem ascii_of_all {text : List Char} (h : text.all (fun c => c.toNat < 0x80) = true) :
    ∀ c ∈ text, c.toNat < 0x80 := by
  intro c hc
  exact of_decide_eq_true (List.all_eq_true.mp h c hc)

theorem isField_iff_of_blurred {line seen : List Char} (h : Blurred line seen) :
    IsField seen ↔ IsField line := by
  have hevent := @ascii_of_all "event: ".toList (by decide)
  have hdata := @ascii_of_all "data: ".toList (by decide)
  unfold IsField
  rw [h.prefix_iff hevent, h.prefix_iff hdata]

/-- What is passed over may be blurred. -/
theorem foldLines_blurred {lines seen : List (List Char)} (h : List.Forall₂ Blurred lines seen)
    (hfields : ∀ line ∈ lines, IsField line → ∀ c ∈ line, c.toNat < 0x80)
    (currentEvent : Option (List Char)) :
    foldLines json currentEvent seen = foldLines json currentEvent lines := by
  induction h generalizing currentEvent with
  | nil => rfl
  | @cons line seen lines seens hline _ ih =>
    have hstep : processSseLine json seen currentEvent =
        processSseLine json line currentEvent := by
      by_cases hfield : IsField line
      · rw [hline.eq_of_ascii (hfields line List.mem_cons_self hfield)]
      · have hseen : ¬ IsField seen := fun h => hfield ((isField_iff_of_blurred hline).mp h)
        rw [processSseLine_of_not_isField json hfield, processSseLine_of_not_isField json hseen]
    have hrest := ih fun other hother => hfields other (List.mem_cons_of_mem line hother)
    simp only [foldLines, hstep, hrest]

/-- What the loop makes of a body that is a text in UTF-8. -/
structure ReadsUtf8 (text : List Char) (byteStream : List (Except String (List UInt8))) :
    Prop where
  program : ∀ R beacons, connectSse R json beacons (.ok byteStream) = (do
    handOver R beacons 0 (foldLines json none (terminatedLines (textOf byteStream))).1
    return .error (endOf byteStream))
  blurred : Blurred text (textOf byteStream)
  lines : List.Forall₂ Blurred (terminatedLines text) (terminatedLines (textOf byteStream))
  exact_iff : textOf byteStream = text ↔
    ∀ chunk ∈ received byteStream, ∃ piece, chunk = utf8 piece
  fields : (∀ line ∈ terminatedLines text, IsField line → ∀ c ∈ line, c.toNat < 0x80) →
    foldLines json none (terminatedLines (textOf byteStream)) =
      foldLines json none (terminatedLines text)

/-- **The loop on UTF-8.** However the bytes of a text are cut, the loop works through the lines of a
text that differs in one thing: a character that a cut falls inside is replaced by two to four
U+FFFD. It is the same text if and only if every chunk is a text of its own. The events are the same
if the fields are ASCII, whatever the comments are. -/
theorem loop_reads_utf8 {text : List Char} {byteStream : List (Except String (List UInt8))}
    (h : (received byteStream).flatten = utf8 text) : ReadsUtf8 json text byteStream := by
  obtain ⟨seen, hread, hblurred, hpieces⟩ :=
    exists_blurred (fun b hb => (List.not_mem_nil hb).elim) (h.trans (List.nil_append _).symm)
  have hseen : textOf byteStream = seen := (textOf_eq byteStream).trans hread
  subst hseen
  refine ⟨fun R beacons => connectSse_eq R json beacons _, hblurred, hblurred.lines.1,
    ⟨hpieces rfl, ?_⟩, fun hfields => foldLines_blurred json hblurred.lines.1 hfields none⟩
  intro hchunks
  have hbytes : utf8 (textOf byteStream) = utf8 text := by
    rw [textOf_eq, utf8_flatMap hchunks, h]
  rw [← fromUtf8Lossy_text text, ← hbytes, fromUtf8Lossy_text]

end RelayService

namespace Sample

open SseByteStream Text

/-- A comment with a letter of two bytes, and a head event. -/
def commented : List Char := ": \u00e9\n".toList ++ ascii sampleFrame.bytes

/-- Its bytes, with a cut between the two. -/
def cutComment : List (Except String (List UInt8)) :=
  [.ok [0x3a, 0x20, 0xc3], .ok (0xa9 :: 0x0a :: sampleFrame.bytes)]

end Sample

open RelayService SseByteStream Text in
/-- What is read is another text, and the event is handed over all the same. -/
theorem RelayService.loop_reads_utf8_comment :
    textOf Sample.cutComment ≠ Sample.commented ∧
      (foldLines sampleJson none (terminatedLines (textOf Sample.cutComment))).1 =
        [sampleFrame.event] := by
  have hbytes : (received Sample.cutComment).flatten = utf8 Sample.commented := by decide +kernel
  have hfields : (terminatedLines Sample.commented).all (fun line =>
      !decide (IsField line) || line.all fun c => c.toNat < 0x80) = true := by decide +kernel
  refine ⟨by decide +kernel, ?_⟩
  rw [(loop_reads_utf8 sampleJson hbytes).fields]
  · decide +kernel
  · intro line hline hfield
    have hall := List.all_eq_true.mp hfields line hline
    rw [decide_eq_true hfield] at hall
    exact ascii_of_all hall

end MevRelay
