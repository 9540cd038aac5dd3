import Mathlib.Data.List.Infix
import WorkspaceLink.Proofs.Text.Utf8
import WorkspaceLink.Proofs.Watcher.Step

/-! The way from a path to a URI and back. Nothing is escaped on the way there, but escapes are
decoded on the way back: exactly the paths that hold no escape come back as they were. -/

namespace WorkspaceLink

open Text

def isHexDigit (c : Char) : Bool :=
  "0123456789abcdefABCDEF".toList.contains c

/-- Whether a text begins with a percent sign and two hexadecimal digits. -/
def startsEscape : Text → Bool
  | '%' :: h :: l :: _ => isHexDigit h && isHexDigit l
  | _ => false

/-- Whether a percent sign is followed by two hexadecimal digits anywhere in a text. -/
def hasEscape (s : Text) : Bool :=
  s.tails.any startsEscape

variable {b v : UInt8} {bs : List UInt8} {c : Char} {s : Text} {path : Path}

theorem hasEscape_cons (c : Char) (s : Text) :
    hasEscape (c :: s) = (startsEscape (c :: s) || hasEscape s) := by
  rw [hasEscape, List.tails_cons, List.any_cons]
  rfl

/-- Induction along the escapes of a text: each is taken as a whole. -/
@[elab_as_elim]
theorem escapeInduction {motive : Text → Prop} (nil : motive [])
    (escape : ∀ h l s, startsEscape ('%' :: h :: l :: s) = true → motive s →
      motive ('%' :: h :: l :: s))
    (char : ∀ c s, startsEscape (c :: s) = false → motive s → motive (c :: s)) (s : Text) :
    motive s := by
  induction hlength : s.length using Nat.strongRecOn generalizing s with
  | ind n ih =>
    subst hlength
    cases s with
    | nil => exact nil
    | cons c s =>
      by_cases hstart : startsEscape (c :: s) = true
      · unfold startsEscape at hstart
        split at hstart
        · next h l rest heq =>
          obtain ⟨rfl, rfl⟩ := List.cons.inj heq
          exact escape h l rest hstart (ih _ (by simp only [List.length_cons]; omega) rest rfl)
        · cases hstart
      · exact char c s (Bool.eq_false_iff.mpr hstart) (ih _ (by simp) s rfl)

/-! ### Bytes -/

theorem toNat_lt_of_hexDigit? (h : hexDigit? b = some v) : b.toNat < 0x80 := by
  have hle (high : UInt8) (hhigh : high.toNat < 0x80) (hb : b ≤ high) : b.toNat < 0x80 := by
    have hb' := UInt8.le_iff_toNat_le.mp hb
    omega
  unfold hexDigit? at h
  split at h
  · next hb => exact hle _ (by decide) hb.2
  split at h
  · next hb => exact hle _ (by decide) hb.2
  split at h
  · next hb => exact hle _ (by decide) hb.2
  · cases h

theorem isHexDigit_of_hexDigit? (h : hexDigit? b = some v) :
    isHexDigit (Char.ofNat b.toNat) = true := by
  have hall : ∀ n < 0x80, (hexDigit? (.ofNat n)).isSome → isHexDigit (Char.ofNat n) = true := by
    decide +kernel
  have hb := hall b.toNat (toNat_lt_of_hexDigit? h)
  rw [UInt8.ofNat_toNat, h] at hb
  exact hb rfl

theorem exists_hexDigit? (h : isHexDigit c = true) :
    ∃ b v, String.utf8EncodeChar c = [b] ∧ hexDigit? b = some v := by
  have hall : "0123456789abcdefABCDEF".toList.all (fun c =>
      String.utf8EncodeChar c = [.ofNat c.toNat] ∧ (hexDigit? (.ofNat c.toNat)).isSome) = true := by
    decide +kernel
  have hdigit := List.all_eq_true.mp hall c (List.contains_iff_mem.mp h)
  obtain ⟨hbyte, hsome⟩ := of_decide_eq_true hdigit
  obtain ⟨v, hv⟩ := Option.isSome_iff_exists.mp hsome
  exact ⟨_, v, hbyte, hv⟩

theorem unescapeBytes_of_ne (h : b ≠ 0x25) (bs : List UInt8) :
    unescapeBytes (b :: bs) = b :: unescapeBytes bs := by
  rw [unescapeBytes.eq_def]
  exact if_neg h

theorem unescapeBytes_singleton (b : UInt8) : unescapeBytes [b] = [b] := by
  by_cases h : b = 0x25
  · rw [h]
    rfl
  · exact unescapeBytes_of_ne h []

theorem unescapeBytes_digits {high low hi lo : UInt8} (hhi : hexDigit? high = some hi)
    (hlo : hexDigit? low = some lo) (bs : List UInt8) :
    unescapeBytes (0x25 :: high :: low :: bs) = (hi * 16 + lo) :: unescapeBytes bs := by
  rw [unescapeBytes.eq_def]
  simp only [if_true, hhi, hlo]

/-- A byte stays if no two digits follow it. -/
theorem unescapeBytes_keep (h : ∀ high low rest hi lo, bs = high :: low :: rest →
    hexDigit? high = some hi → hexDigit? low = some lo → False) :
    unescapeBytes (b :: bs) = b :: unescapeBytes bs := by
  by_cases hb : b = 0x25
  · subst hb
    match bs with
    | [] => rfl
    | [low] =>
      rw [unescapeBytes_singleton]
      rfl
    | high :: low :: rest =>
      rw [unescapeBytes.eq_def]
      dsimp only
      rw [if_pos rfl]
      split
      · next hi lo hhi hlo => exact (h high low rest hi lo rfl hhi hlo).elim
      · rfl
  · exact unescapeBytes_of_ne hb bs

theorem unescapeBytes_append (h : ∀ b ∈ bs, b ≠ 0x25) (rest : List UInt8) :
    unescapeBytes (bs ++ rest) = bs ++ unescapeBytes rest := by
  induction bs with
  | nil => rfl
  | cons b bs ih =>
    rw [List.cons_append, unescapeBytes_of_ne (h b List.mem_cons_self),
      ih fun t ht => h t (List.mem_cons_of_mem _ ht)]
    rfl

theorem unescapeBytes_encode (h : c ≠ '%') (bs : List UInt8) :
    unescapeBytes (String.utf8EncodeChar c ++ bs) =
      String.utf8EncodeChar c ++ unescapeBytes bs := by
  apply unescapeBytes_append
  obtain ⟨first, rest, heq, hbytes⟩ := exists_encode c
  rw [heq]
  rcases hbytes with ⟨-, hc, rfl⟩ | ⟨hfirst, hrest⟩
  · rintro b hb rfl
    obtain rfl := List.mem_singleton.mp hb
    exact h ((Char.ofNat_toNat c).symm.trans (congrArg Char.ofNat hc.symm))
  · rintro b hb rfl
    rcases List.mem_cons.mp hb with rfl | hb
    · exact absurd hfirst (by decide)
    · exact absurd (hrest _ hb) (by decide)

theorem utf8_cons (c : Char) (s : Text) : utf8 (c :: s) = String.utf8EncodeChar c ++ utf8 s :=
  List.flatMap_cons

theorem encode_percent : String.utf8EncodeChar '%' = [0x25] := by
  decide

theorem unescapeBytes_escape {h l : Char} (hstart : startsEscape ('%' :: h :: l :: s) = true) :
    ∃ b, unescapeBytes (utf8 ('%' :: h :: l :: s)) = b :: unescapeBytes (utf8 s) := by
  obtain ⟨hh, hl⟩ := Bool.and_eq_true_iff.mp hstart
  obtain ⟨high, hi, hhigh, hhi⟩ := exists_hexDigit? hh
  obtain ⟨low, lo, hlow, hlo⟩ := exists_hexDigit? hl
  refine ⟨hi * 16 + lo, ?_⟩
  rw [utf8_cons, utf8_cons, utf8_cons, encode_percent, hhigh, hlow, List.singleton_append,
    List.singleton_append, List.singleton_append, unescapeBytes_digits hhi hlo]

theorem unescapeBytes_char (hstart : startsEscape (c :: s) = false) :
    unescapeBytes (utf8 (c :: s)) = String.utf8EncodeChar c ++ unescapeBytes (utf8 s) := by
  by_cases hc : c = '%'
  · subst hc
    rw [utf8_cons, encode_percent, List.singleton_append, List.singleton_append]
    apply unescapeBytes_keep
    intro high low rest hi lo heq hhi hlo
    -- the two digits would be characters of the text
    obtain ⟨t, rfl, ht⟩ := eq_cons_of_utf8_eq_cons heq (toNat_lt_of_hexDigit? hhi)
    obtain ⟨u, rfl, -⟩ := eq_cons_of_utf8_eq_cons ht (toNat_lt_of_hexDigit? hlo)
    rw [startsEscape, isHexDigit_of_hexDigit? hhi, isHexDigit_of_hexDigit? hlo] at hstart
    cases hstart
  · rw [utf8_cons]
    exact unescapeBytes_encode hc _

theorem unescapeBytes_of_not_hasEscape (h : hasEscape s = false) :
    unescapeBytes (utf8 s) = utf8 s := by
  induction s with
  | nil => rfl
  | cons c s ih =>
    rw [hasEscape_cons, Bool.or_eq_false_iff] at h
    rw [unescapeBytes_char h.1, ih h.2, utf8_cons]

/-- Decoding makes at most as many characters as there were, and fewer if there were escapes. -/
theorem length_utf8Chars_unescapeBytes_le (s : Text) {q : Option Utf8Debt}
    (hq : ∀ d ∈ q, d.Sound) :
    (utf8Chars q (unescapeBytes (utf8 s))).length + (if hasEscape s then 2 else 0) ≤
      s.length + owed q := by
  induction s using escapeInduction generalizing q with
  | nil => cases q <;> exact le_rfl
  | char c s hstart ih =>
    obtain ⟨front, hfront, heq⟩ := exists_utf8Chars_encode hq c
    have hrest := ih (q := none) (by simp)
    rw [unescapeBytes_char hstart, heq, hasEscape_cons, hstart, Bool.false_or, List.length_append,
      List.length_cons]
    rw [owed] at hrest
    omega
  | escape h l s hstart ih =>
    obtain ⟨b, hb⟩ := unescapeBytes_escape hstart
    obtain ⟨q', front, hq', hfront, heq⟩ := exists_utf8Chars_cons hq b
    have hrest := ih hq'
    rw [hb, heq, hasEscape_cons, hstart, Bool.true_or, if_pos rfl, List.length_append]
    simp only [List.length_cons]
    omega

/-! ### Paths -/

theorem percentDecode_eq (s : Text) : percentDecode s = decodeLossy (unescapeBytes (utf8 s)) := by
  rw [percentDecode]
  split
  · rfl
  · next hpercent =>
    have hnone : hasEscape s = false := by
      rw [Bool.eq_false_iff]
      intro hescape
      obtain ⟨t, ht, hstart⟩ := List.any_eq_true.mp hescape
      unfold startsEscape at hstart
      split at hstart
      · have hmem := ((List.mem_tails _ _).mp ht).subset List.mem_cons_self
        exact hpercent (List.contains_iff_mem.mpr hmem)
      · cases hstart
    rw [unescapeBytes_of_not_hasEscape hnone, decodeLossy_utf8]

theorem percentDecode_eq_self_iff : percentDecode s = s ↔ hasEscape s = false := by
  rw [percentDecode_eq]
  constructor
  · intro heq
    have hlength := length_utf8Chars_unescapeBytes_le s (q := none) (by simp)
    have hdecoded := congrArg List.length heq
    rw [decodeLossy, List.length_map] at hdecoded
    rw [hdecoded, owed] at hlength
    by_contra hescape
    rw [if_pos (by simpa using hescape)] at hlength
    omega
  · intro h
    rw [unescapeBytes_of_not_hasEscape h, decodeLossy_utf8]

theorem toPath_ofPath (path : Path) : (DocumentUri.ofPath path).toPath = percentDecode path := by
  have hstrip : afterFront? DocumentUri.fileScheme (DocumentUri.fileScheme ++ path) = some path :=
    List.isPrefixOf?_eq_some_iff_append_eq.mpr rfl
  rw [DocumentUri.toPath, DocumentUri.ofPath, hstrip]
  rfl

/-- Whether a file can be found by its URI: the URI leads back to its path, and so does the URI of
every notification about it. -/
structure Addressed (path : Path) : Prop where
  roundTrip : (DocumentUri.ofPath path).toPath = path
  notified : ∀ (s : WatchState) time change,
    ∀ call ∈ (s.dispatch time path change).client.calls.drop s.client.calls.length,
      ∀ uri kind, call.2 = .watched uri kind → uri.toPath = path

/-- A file can be found by its URI exactly if its path holds no escape. -/
theorem addressed_iff (path : Path) : Addressed path ↔ hasEscape path = false := by
  rw [← percentDecode_eq_self_iff, ← toPath_ofPath]
  refine ⟨Addressed.roundTrip, fun h => ⟨h, ?_⟩⟩
  intro s time change call hcall uri kind heq
  rw [WatchState.dispatch_eq, WatchState.call, WatchClient.send_report, List.drop_left,
    List.mem_singleton] at hcall
  rw [hcall] at heq
  dsimp only [WatchClient.report] at heq
  split at heq
  · cases heq
  · obtain ⟨rfl, -⟩ := WatchCall.watched.inj heq
    exact h

/-- The file `a%20b.go` is reported under a URI that leads to the file `a b.go`. -/
theorem escapedName_not_addressed :
    (DocumentUri.ofPath "/ws/a%20b.go").toPath = "/ws/a b.go" ∧ ¬Addressed "/ws/a%20b.go" := by
  have hother : (DocumentUri.ofPath "/ws/a%20b.go").toPath = "/ws/a b.go" := by decide +kernel
  refine ⟨hother, fun h => ?_⟩
  have hround := h.roundTrip
  rw [hother] at hround
  revert hround
  decide

/-- A percent sign that no two digits follow does no harm. -/
example : hasEscape "/ws/100%/50%2.go" = false := by
  decide +kernel

end WorkspaceLink
