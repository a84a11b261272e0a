import PacketTrace.Proofs.Except
import PacketTrace.Proofs.Json.Value

/-!
# `Proofs.Json.Accepted.Token` — tokens that are accepted

What a reader accepts has the form that it is meant to have. A reader of strings takes a string, whatever else it
demands of it, and a reader of numbers takes a numeral; what they leave unread stands behind it.

## Contents
- **Readers.** Two readers one after the other, the byte that is looked at, and fixed words.
- **Strings.** `string_eq_ok` and `skipString_eq_ok`.
- **Numerals.** `number_eq_ok` and `skipNumber_eq_ok`.
-/

namespace PacketTrace.Json.Reader

open Utf8

variable {α β : Type}

/-! ## Readers -/

/-- Two readers succeed one after the other if both do. -/
theorem exists_of_bind {read : Reader α} {next : α → Reader β} {input rest : Bytes} {b : β}
    (h : (read >>= next) input = .ok (b, rest)) :
    ∃ a behind, read input = .ok (a, behind) ∧ next a behind = .ok (b, rest) := by
  obtain ⟨⟨a, behind⟩, hread, hnext⟩ := bind_eq_ok.mp h
  exact ⟨a, behind, hread, hnext⟩

/-- A result is changed only if there is one. -/
theorem exists_of_map {read : Reader α} {f : α → β} {input rest : Bytes} {b : β}
    (h : (f <$> read) input = .ok (b, rest)) : ∃ a, read input = .ok (a, rest) ∧ f a = b := by
  rw [map_eq_pure_bind] at h
  obtain ⟨a, behind, hread, hresult⟩ := exists_of_bind h
  cases hresult
  exact ⟨a, hread, rfl⟩

/-- White space in front is passed over. -/
theorem exists_space (input : Bytes) : ∃ space : Space, input = space.bytes ++ input.dropWhile isSpace :=
  ⟨⟨input.takeWhile isSpace, List.all_takeWhile⟩, List.takeWhile_append_dropWhile.symm⟩

theorem peekByte_eq_ok {input behind : Bytes} {b : UInt8} (h : peekByte input = .ok (b, behind)) :
    ∃ space : Space, ∃ tail, input = space.bytes ++ behind ∧ behind = b :: tail ∧ isSpace b = false := by
  obtain ⟨space, hspace⟩ := exists_space input
  have hpeek : peek input = .ok ((input.dropWhile isSpace).head?, input.dropWhile isSpace) := rfl
  unfold peekByte at h
  rw [bind_of_ok hpeek] at h
  cases hrest : input.dropWhile isSpace with
  | nil =>
    rw [hrest] at h
    cases h
  | cons c tail =>
    rw [hrest] at h
    cases h
    refine ⟨space, tail, hrest ▸ hspace, rfl, ?_⟩
    have hhead := List.head?_dropWhile_not isSpace input
    rw [hrest] at hhead
    simpa using hhead

/-- A byte that must be the next one is there. -/
theorem expected_eq_ok {c : UInt8} {read : Reader α} {input rest : Bytes} {a : α}
    (h : (peekByte >>= fun b => if b = c then read else throw .badGrammar) input = .ok (a, rest)) :
    ∃ space : Space, ∃ tail, input = space.bytes ++ c :: tail ∧ read (c :: tail) = .ok (a, rest) := by
  obtain ⟨b, behind, hpeek, hb⟩ := exists_of_bind h
  obtain ⟨space, tail, hinput, rfl, -⟩ := peekByte_eq_ok hpeek
  by_cases hc : b = c
  · rw [if_pos hc, hc] at hb
    exact ⟨space, tail, hc ▸ hinput, hb⟩
  · rw [if_neg hc] at hb
    cases hb

theorem word_eq_ok {expected input rest : Bytes} (h : word expected input = .ok ((), rest)) :
    input = expected ++ rest := by
  induction expected generalizing input with
  | nil =>
    cases h
    rfl
  | cons b expected ih =>
    obtain ⟨c, behind, hnext, hword⟩ := exists_of_bind h
    cases input with
    | nil => cases hnext
    | cons d tail =>
      cases hnext
      by_cases hc : c = b
      · rw [if_pos hc] at hword
        rw [hc, ih hword, List.cons_append]
      · rw [if_neg hc] at hword
        cases hword

/-! ## Strings -/

/-- What has been read of a character that is not complete. -/
def StringState.begun : StringState → Bytes
  | .plain => []
  | .escape => [backslash]
  | .hex digits _ => backslash :: lowerU :: digits.reverse
  | .backslashDue _ => []
  | .letterDue _ => [backslash]

/-- There must be four digits. -/
theorem exists_of_fourHex? {d : UInt8} {digits : List UInt8} {n : Nat} (h : fourHex? (d :: digits) = some n) :
    ∃ a b c, digits = [c, b, a] := by
  -- The pattern is not taken apart while the list still has a head of its own.
  generalize hall : d :: digits = all at h
  unfold fourHex? at h
  split at h
  · cases hall
    exact ⟨_, _, _, rfl⟩
  · cases h

/-- The bytes up to the closing quote are the end of a string. -/
theorem stringBytes_eq_ok {read input bytes rest : Bytes} {state : StringState}
    (h : stringBytes read state input = .ok (bytes, rest)) :
    ∃ body, state.begun ++ input = body ++ rest ∧ IsStringEnd body := by
  -- The induction is on the run of the reader. Inside a character, what has been read of it belongs to the body.
  fun_induction stringBytes read state input with
  | case2 =>
    cases h
    exact ⟨[quote], rfl, .close⟩
  | case3 _ _ _ ih => exact ih h
  | case5 read b tail hquote hbackslash hcontrol ih =>
    obtain ⟨body, hbody, hend⟩ := ih h
    exact ⟨b :: body, congrArg (b :: ·) hbody, .plain ⟨hquote, hbackslash, UInt8.not_lt.mp hcontrol⟩ hend⟩
  | case6 read letter tail c hletter ih =>
    obtain ⟨body, hbody, hend⟩ := ih h
    exact ⟨backslash :: letter :: body, congrArg (backslash :: letter :: ·) hbody, .escape hletter hend⟩
  | case7 _ _ _ ih => exact ih h
  | case9 read digits high b tail hfew ih =>
    obtain ⟨body, hbody, hend⟩ := ih h
    refine ⟨body, ?_, hend⟩
    rw [← hbody]
    simp [StringState.begun]
  | case12 read digits high b tail hmany n hfour state bytes hhex ih =>
    obtain ⟨body, hbody, hend⟩ := ih h
    -- The second half of a pair is a character of its own in the grammar.
    have hbegun : state.begun = [] := by
      rcases fromHex_cases hhex with rfl | ⟨first, rfl⟩
      · rfl
      · rfl
    rw [hbegun, List.nil_append] at hbody
    obtain ⟨a₁, a₂, a₃, rfl⟩ := exists_of_fourHex? hfour
    exact ⟨backslash :: lowerU :: a₁ :: a₂ :: a₃ :: b :: body,
      congrArg (backslash :: lowerU :: a₁ :: a₂ :: a₃ :: b :: ·) hbody, .hex hfour hend⟩
  | case13 _ _ _ ih => exact ih h
  | case15 _ _ _ ih => exact ih h
  | _ => cases h

/-- **A string that is read is one.** -/
theorem string_eq_ok {tail rest : Bytes} {t : Text} (h : string (quote :: tail) = .ok (t, rest)) :
    ∃ token, quote :: tail = token ++ rest ∧ IsString token := by
  unfold string at h
  rw [bind_of_ok (skip_cons quote tail)] at h
  obtain ⟨bytes, behind, hbytes, h⟩ := exists_of_bind h
  obtain ⟨body, hbody, hend⟩ := stringBytes_eq_ok hbytes
  have hrest : rest = behind := by
    cases htext : decode? bytes with
    | none =>
      rw [htext] at h
      cases h
    | some t =>
      rw [htext] at h
      cases h
      rfl
  rw [hrest]
  exact ⟨quote :: body, congrArg (quote :: ·) hbody, .mk hend⟩

/-- What has been passed over of a character that is not complete. -/
def SkipState.begun : SkipState → Bytes
  | .plain => []
  | .escape => [backslash]
  | .hex digits => backslash :: lowerU :: digits.reverse

theorem afterString_eq_ok {input rest : Bytes} {state : SkipState} (h : afterString state input = .ok rest) :
    ∃ body, state.begun ++ input = body ++ rest ∧ IsStringEnd body := by
  fun_induction afterString state input with
  | case2 =>
    cases h
    exact ⟨[quote], rfl, .close⟩
  | case3 _ _ ih => exact ih h
  | case5 b tail hquote hbackslash hcontrol ih =>
    obtain ⟨body, hbody, hend⟩ := ih h
    exact ⟨b :: body, congrArg (b :: ·) hbody, .plain ⟨hquote, hbackslash, UInt8.not_lt.mp hcontrol⟩ hend⟩
  | case6 letter tail hletter ih =>
    obtain ⟨body, hbody, hend⟩ := ih h
    obtain ⟨c, hc⟩ := Option.isSome_iff_exists.mp hletter
    exact ⟨backslash :: letter :: body, congrArg (backslash :: letter :: ·) hbody, .escape hc hend⟩
  | case7 _ _ ih => exact ih h
  | case9 digits b tail hfew ih =>
    obtain ⟨body, hbody, hend⟩ := ih h
    refine ⟨body, ?_, hend⟩
    rw [← hbody]
    simp [SkipState.begun]
  | case10 digits b tail hmany hfour ih =>
    obtain ⟨body, hbody, hend⟩ := ih h
    obtain ⟨n, hn⟩ := Option.isSome_iff_exists.mp hfour
    obtain ⟨a₁, a₂, a₃, rfl⟩ := exists_of_fourHex? hn
    exact ⟨backslash :: lowerU :: a₁ :: a₂ :: a₃ :: b :: body,
      congrArg (backslash :: lowerU :: a₁ :: a₂ :: a₃ :: b :: ·) hbody, .hex hn hend⟩
  | _ => cases h

/-- **A string that is passed over is one.** -/
theorem skipString_eq_ok {tail rest : Bytes} (h : skipString (quote :: tail) = .ok ((), rest)) :
    ∃ token, quote :: tail = token ++ rest ∧ IsString token := by
  unfold skipString at h
  rw [bind_of_ok (skip_cons quote tail)] at h
  cases hafter : afterString .plain tail with
  | error fault =>
    rw [hafter] at h
    cases h
  | ok behind =>
    rw [hafter] at h
    cases h
    obtain ⟨body, hbody, hend⟩ := afterString_eq_ok hafter
    exact ⟨quote :: body, congrArg (quote :: ·) hbody, .mk hend⟩

/-! ## Numerals -/

theorem digits_eq_ok {input ds rest : Bytes} (h : digits input = .ok (ds, rest)) :
    input = ds ++ rest ∧ IsRun ds := by
  unfold digits at h
  cases input with
  | nil => cases h
  | cons b tail =>
    dsimp only at h
    by_cases hb : isDigit b = true
    · rw [if_pos hb] at h
      cases h
      refine ⟨List.takeWhile_append_dropWhile.symm, ?_, fun d hd => List.all_eq_true.mp List.all_takeWhile d hd⟩
      rw [List.takeWhile_cons_of_pos hb]
      exact List.cons_ne_nil _ _
    · rw [if_neg hb] at h
      cases h

theorem accept_eq_ok {b : UInt8} {input rest : Bytes} {accepted : Bool} (h : accept b input = .ok (accepted, rest)) :
    input = (if accepted then [b] else []) ++ rest := by
  unfold accept at h
  cases input with
  | nil =>
    cases h
    rfl
  | cons c tail =>
    dsimp only at h
    by_cases hc : c = b
    · rw [if_pos hc] at h
      cases h
      rw [hc]
      rfl
    · rw [if_neg hc] at h
      cases h
      rfl

/-- A fraction that is read is one. -/
theorem exists_fraction {next : Option (List UInt8) → Reader α} {input rest : Bytes} {a : α}
    (h : (accept point >>= fun marked =>
        if marked = true then some <$> digits >>= next else pure none >>= next) input = .ok (a, rest)) :
    ∃ fraction behind, input = fractionBytes fraction ++ behind ∧ (∀ ds ∈ fraction, IsRun ds) ∧
      next fraction behind = .ok (a, rest) := by
  obtain ⟨marked, behind, hpoint, hmarked⟩ := exists_of_bind h
  rw [accept_eq_ok hpoint]
  cases marked with
  | false => exact ⟨none, behind, rfl, fun _ hds => (nomatch hds), hmarked⟩
  | true =>
    obtain ⟨fraction, behind', hfraction, hnext⟩ := exists_of_bind hmarked
    obtain ⟨ds, hdigits, rfl⟩ := exists_of_map hfraction
    obtain ⟨hbehind, hrun⟩ := digits_eq_ok hdigits
    refine ⟨some ds, behind', congrArg (point :: ·) hbehind, ?_, hnext⟩
    rintro _ ⟨⟩
    exact hrun

/-- A marker that is read is one. -/
theorem exists_marker {next : Bool → Reader α} {input rest : Bytes} {a : α}
    (h : (accept lowerE >>= fun marked =>
        if marked = true then pure true >>= next else accept upperE >>= next) input = .ok (a, rest)) :
    (∃ marker behind, IsMarker marker ∧ input = marker :: behind ∧ next true behind = .ok (a, rest)) ∨
      next false input = .ok (a, rest) := by
  obtain ⟨marked, behind, hlower, hmarked⟩ := exists_of_bind h
  rw [accept_eq_ok hlower]
  cases marked with
  | true => exact Or.inl ⟨lowerE, behind, Or.inl rfl, rfl, hmarked⟩
  | false =>
    obtain ⟨marked, behind', hupper, hnext⟩ := exists_of_bind hmarked
    have hbehind := accept_eq_ok hupper
    cases marked with
    | true => exact Or.inl ⟨upperE, behind', Or.inr rfl, hbehind, hnext⟩
    | false =>
      cases hbehind
      exact Or.inr hnext

/-- An exponent that is read behind its marker is one. -/
theorem exists_exponent {make : Bool × List UInt8 → α} {marker : UInt8} (hmarker : IsMarker marker)
    {input rest : Bytes} {a : α}
    (h : (accept minus >>= fun signed =>
        if (!signed) = true then accept plus >>= fun _ => digits >>= fun ds => pure (make (signed, ds))
        else digits >>= fun ds => pure (make (signed, ds))) input = .ok (a, rest)) :
    ∃ e bytes, marker :: input = bytes ++ rest ∧ IsExponent (some e) bytes ∧ IsRun e.2 ∧ a = make e := by
  obtain ⟨signed, behind, hminus, hsigned⟩ := exists_of_bind h
  rw [accept_eq_ok hminus]
  cases signed with
  | true =>
    obtain ⟨ds, behind', hdigits, hnext⟩ := exists_of_bind hsigned
    obtain ⟨rfl, hrun⟩ := digits_eq_ok hdigits
    cases hnext
    exact ⟨(true, ds), marker :: minus :: ds, rfl, .negative hmarker ds, hrun, rfl⟩
  | false =>
    obtain ⟨positive, behind', hplus, hpositive⟩ := exists_of_bind hsigned
    obtain ⟨ds, behind'', hdigits, hnext⟩ := exists_of_bind hpositive
    obtain ⟨rfl, hrun⟩ := digits_eq_ok hdigits
    cases hnext
    rw [accept_eq_ok hplus]
    cases positive with
    | true => exact ⟨(false, ds), marker :: plus :: ds, rfl, .positive hmarker ds, hrun, rfl⟩
    | false => exact ⟨(false, ds), marker :: ds, rfl, .unsigned hmarker ds, hrun, rfl⟩

/-- **A numeral that is read is one.** -/
theorem numeral_eq_ok {input rest : Bytes} {n : Numeral} (h : numeral input = .ok (n, rest)) :
    ∃ bytes, input = bytes ++ rest ∧ n.WrittenAs bytes := by
  obtain ⟨negative, behind₁, hsign, h₁⟩ := exists_of_bind h
  obtain ⟨whole, behind₂, hwhole, h₂⟩ := exists_of_bind h₁
  obtain ⟨hbehind, hrun⟩ := digits_eq_ok hwhole
  rw [accept_eq_ok hsign, hbehind]
  -- A zero in front of other digits is refused, so a numeral that is read has none.
  by_cases hzero : (decide (whole.head? = some zero) && decide (whole.length ≠ 1)) = true
  · dsimp only at h₂
    rw [if_pos hzero] at h₂
    cases h₂
  have hlead : whole.head? = some zero → whole.length = 1 := by simpa using hzero
  dsimp only at h₂
  rw [if_neg hzero] at h₂
  obtain ⟨fraction, behind₃, hfraction, hruns, h₃⟩ := exists_fraction h₂
  rw [hfraction]
  rcases exists_marker h₃ with ⟨marker, behind₄, hmarker, hbehind₃, h₄⟩ | h₄
  · have hmake : ∃ e bytes, marker :: behind₄ = bytes ++ rest ∧ IsExponent (some e) bytes ∧ IsRun e.2 ∧
        n = { negative, whole, fraction, exponent := some e } :=
      exists_exponent hmarker h₄
    obtain ⟨e, bytes, hbytes, he, hdigits, rfl⟩ := hmake
    rw [hbehind₃, hbytes]
    refine ⟨_, ?_, .mk ⟨hrun, hlead, hruns, ?_⟩ he⟩
    · simp [Numeral.withExponent]
    · rintro _ ⟨⟩
      exact hdigits
  · cases h₄
    refine ⟨_, ?_, .mk ⟨hrun, hlead, hruns, fun _ he => nomatch he⟩ .none⟩
    simp [Numeral.withExponent]

theorem number_eq_ok {input rest : Bytes} {x : Number} (h : number input = .ok (x, rest)) :
    ∃ n : Numeral, ∃ bytes, input = bytes ++ rest ∧ n.WrittenAs bytes := by
  obtain ⟨n, behind, hnumeral, hvalue⟩ := exists_of_bind h
  obtain ⟨bytes, hbytes, hwritten⟩ := numeral_eq_ok hnumeral
  cases hn : n.value with
  | error fault =>
    rw [hn] at hvalue
    cases hvalue
  | ok y =>
    rw [hn] at hvalue
    cases hvalue
    exact ⟨n, bytes, hbytes, hwritten⟩

theorem skipNumber_eq_ok {input rest : Bytes} (h : skipNumber input = .ok ((), rest)) :
    ∃ n : Numeral, ∃ bytes, input = bytes ++ rest ∧ n.WrittenAs bytes := by
  unfold skipNumber at h
  cases hnumeral : numeral input with
  | error fault =>
    rw [hnumeral] at h
    cases h
  | ok result =>
    rw [hnumeral] at h
    cases h
    exact ⟨result.1, numeral_eq_ok hnumeral⟩

end PacketTrace.Json.Reader
