import Rosette.Core.Backup
import Rosette.Directory.Username
import Rosette.Foundation.Text

/-! # The address a limit is keyed on

The proxy appends the address it saw to whatever the client sent in the header. The service reads
the header as text, takes what follows the last comma and parses it; otherwise it takes the address
of the socket, which is the proxy's.
-/
namespace Rosette.Directory
open Foundation List Option

def isVisibleAscii (b : UInt8) : Bool := (32 ≤ b.toNat && b.toNat < 127) || b.toNat = 9

def isFieldByte (b : UInt8) : Bool := isVisibleAscii b || 128 ≤ b.toNat

def asText (value : List UInt8) : Text := value.map fun b => Char.ofNat b.toNat

def toStr (value : List UInt8) : Option Text :=
  if value.all isVisibleAscii then some (asText value) else none

def lastEntry (v : Text) : Option Text := some (v.rtakeWhile fun c => c ≠ ',')

def clientIp {ι : Type} (parse : Text → Option ι) (forwardedFor : Option (List UInt8)) (peer : ι) :
    ι :=
  ((((forwardedFor.bind toStr).bind lastEntry).map (trim Core.isWhitespace)).bind parse).getD peer

variable {b : List UInt8} {t : Text}

theorem toStr_append {a : List UInt8} (ha : ∀ x ∈ a, isVisibleAscii x = true) :
    toStr (a ++ b) = (toStr b).map (asText a ++ ·) := by
  have hall : a.all isVisibleAscii = true := all_eq_true.mpr ha
  rw [toStr, toStr, all_append, hall, Bool.true_and]
  split_ifs with hb
  · rw [map_some, asText, asText, asText, map_append]
  · rfl

theorem lastEntry_append (s : Text) (ht : ',' ∉ t) : lastEntry (s ++ ',' :: t) = some t := by
  have hrev : ∀ c ∈ t.reverse, decide (c ≠ ',') = true := fun c hc =>
    decide_eq_true fun h => ht (h ▸ mem_reverse.mp hc)
  have hstop : ((s ++ ',' :: t).reverse).takeWhile (fun c => decide (c ≠ ',')) = t.reverse := by
    rw [reverse_append, reverse_cons, append_assoc, takeWhile_append_of_pos hrev,
      singleton_append, takeWhile_cons_of_neg (by simp), append_nil]
  rw [lastEntry, rtakeWhile, hstop, reverse_reverse]

theorem visible_char {b : UInt8} (hb : isVisibleAscii b = true) :
    (Char.ofNat b.toNat).toNat = b.toNat := by
  have hchar : ∀ n : Fin 128, (Char.ofNat n).toNat = n := by decide
  simp only [isVisibleAscii, Bool.or_eq_true, Bool.and_eq_true, decide_eq_true_eq] at hb
  exact hchar ⟨b.toNat, by omega⟩

theorem toStr_comma (hb : 44 ∉ b) (ht : toStr b = some t) : ',' ∉ t := by
  rw [toStr] at ht
  split_ifs at ht with hall
  cases ht
  intro hc
  obtain ⟨x, hx, hxc⟩ := mem_map.mp hc
  have hnat := visible_char (all_eq_true.mp hall x hx)
  rw [hxc] at hnat
  exact hb (by rwa [show (44 : UInt8) = x from UInt8.toNat_inj.mp hnat])

def isGraphic (b : UInt8) : Bool := 33 ≤ b.toNat && b.toNat < 127

theorem isGraphic_char {b : UInt8} (hb : isGraphic b = true) :
    isVisibleAscii b = true ∧ Core.isWhitespace (Char.ofNat b.toNat) = false := by
  simp only [isGraphic, Bool.and_eq_true, decide_eq_true_eq] at hb
  have hvisible : isVisibleAscii b = true := by
    simp only [isVisibleAscii, Bool.or_eq_true, Bool.and_eq_true, decide_eq_true_eq]
    omega
  refine ⟨hvisible, ?_⟩
  simp only [Core.isWhitespace, visible_char hvisible, Bool.or_eq_false_iff, Bool.and_eq_false_iff,
    decide_eq_false_iff_not]
  omega

/-- A text without white space, between blanks, is trimmed to itself. -/
theorem trim_padded {t : List UInt8} (ht : ∀ x ∈ t, isGraphic x = true) (m n : ℕ) :
    (toStr (replicate m 32 ++ t ++ replicate n 32)).map (trim Core.isWhitespace) =
      some (asText t) := by
  have hblank : ∀ k, ∀ x ∈ replicate k (32 : UInt8), isVisibleAscii x = true := by
    intro k x hx
    rw [(mem_replicate.mp hx).2]
    decide
  have hspace : ∀ k, ∀ c ∈ asText (replicate k 32), Core.isWhitespace c = true := by
    intro k c hc
    obtain ⟨x, hx, rfl⟩ := mem_map.mp hc
    rw [(mem_replicate.mp hx).2]
    decide
  have hvisible : (replicate m 32 ++ t ++ replicate n 32).all isVisibleAscii = true := by
    rw [all_append, all_append, Bool.and_eq_true, Bool.and_eq_true]
    exact ⟨⟨all_eq_true.mpr (hblank m),
      all_eq_true.mpr fun x hx => (isGraphic_char (ht x hx)).1⟩,
      all_eq_true.mpr (hblank n)⟩
  have htext : ∀ c ∈ asText t, Core.isWhitespace c = false := by
    intro c hc
    obtain ⟨x, hx, rfl⟩ := mem_map.mp hc
    exact (isGraphic_char (ht x hx)).2
  rw [toStr, if_pos hvisible, map_some]
  have hsplit : asText (replicate m 32 ++ t ++ replicate n 32) =
      asText (replicate m 32) ++ asText t ++ asText (replicate n 32) := by
    simp [asText]
  rw [hsplit, trim_append_right (hspace n), trim_append_left (hspace m), trim_eq_self htext]

section Result
variable {ι : Type} (parse : Text → Option ι) (peer : ι) {a b : List UInt8}

def appended (b : List UInt8) : ι := (((toStr b).map (trim Core.isWhitespace)).bind parse).getD peer

theorem clientIp_append (ha : ∀ x ∈ a, isVisibleAscii x = true) (hb : 44 ∉ b) :
    clientIp parse (some (a ++ 44 :: b)) peer = appended parse peer b := by
  have hcomma : toStr (44 :: b) = (toStr b).map (asText [44] ++ ·) :=
    toStr_append (a := [44]) (by simp [isVisibleAscii])
  rw [clientIp, bind_some, toStr_append ha, hcomma, appended]
  cases ht : toStr b with
  | none => rfl
  | some t =>
    change (((lastEntry (asText a ++ ',' :: t)).map _).bind parse).getD peer = _
    rw [lastEntry_append _ (toStr_comma hb ht)]

/-- A byte that is no text takes the address of the peer. -/
theorem clientIp_unreadable (ha : ¬ ∀ x ∈ a, isVisibleAscii x = true) :
    clientIp parse (some (a ++ 44 :: b)) peer = peer := by
  have hnone : toStr (a ++ 44 :: b) = none := by
    rw [toStr, if_neg]
    rw [all_append, Bool.and_eq_true, List.all_eq_true]
    exact fun hall => ha hall.1
  rw [clientIp, bind_some, hnone]
  rfl

end Result

/-- The address is the one that the proxy appended, or the peer's if that is none, exactly if what
the client sent can be read as text or the two are the same. What the proxy appended is read without
the blanks around it. -/
theorem client_cannot_choose_address {ι : Type} (parse : Text → Option ι) (peer : ι)
    {a b : List UInt8} (hb : 44 ∉ b) :
    (clientIp parse (some (a ++ 44 :: b)) peer = appended parse peer b ↔
      (∀ x ∈ a, isVisibleAscii x = true) ∨ appended parse peer b = peer) ∧
    (∀ t m n, (∀ x ∈ t, isGraphic x = true) →
      b = replicate m 32 ++ t ++ replicate n 32 →
      appended parse peer b = (parse (asText t)).getD peer) ∧
    (((toStr b).map (trim Core.isWhitespace)).bind parse = none →
      clientIp parse (some (a ++ 44 :: b)) peer = peer) ∧
    ∀ a' : List UInt8, (∀ x ∈ a, isVisibleAscii x = true) → (∀ x ∈ a', isVisibleAscii x = true) →
      clientIp parse (some (a' ++ 44 :: b)) peer = clientIp parse (some (a ++ 44 :: b)) peer := by
  have hexact : clientIp parse (some (a ++ 44 :: b)) peer = appended parse peer b ↔
      (∀ x ∈ a, isVisibleAscii x = true) ∨ appended parse peer b = peer := by
    by_cases ha : ∀ x ∈ a, isVisibleAscii x = true
    · exact iff_of_true (clientIp_append parse peer ha hb) (Or.inl ha)
    · rw [clientIp_unreadable parse peer ha, or_iff_right ha, eq_comm]
  refine ⟨hexact, fun t m n ht hpadded => ?_, fun hnone => ?_, fun a' ha ha' => ?_⟩
  · rw [appended, hpadded, trim_padded ht, bind_some]
  · have hpeer : appended parse peer b = peer := by rw [appended, hnone, getD_none]
    exact (hexact.mpr (Or.inr hpeer)).trans hpeer
  · rw [clientIp_append parse peer ha hb, clientIp_append parse peer ha' hb]

section Sample

def sampleParse (t : Text) : Option ℕ := if t = "203.0.113.7".toList then some 7 else none

def sampleAddress : List UInt8 := [50, 48, 51, 46, 48, 46, 49, 49, 51, 46, 55]

theorem client_cannot_choose_address_forged :
    clientIp sampleParse (some ([49, 46, 50, 46, 51, 46, 52] ++ 44 :: (32 :: sampleAddress))) 1 =
      7 := by
  have ha : ∀ x ∈ [49, 46, 50, 46, 51, 46, 52], isVisibleAscii x = true :=
    all_eq_true.mp (by decide)
  have hb : 44 ∉ 32 :: sampleAddress := by decide
  obtain ⟨hexact, hpadded, -⟩ := client_cannot_choose_address sampleParse 1 hb
  exact (hexact.mpr (.inl ha)).trans
    (hpadded sampleAddress 1 0 (all_eq_true.mp (by decide)) rfl)

/-- One byte above ASCII, and the address of the proxy is taken. -/
theorem client_chooses_peer : ∃ (a a' b : List UInt8),
    (∀ x ∈ a ++ a', isFieldByte x = true) ∧ 44 ∉ b ∧
      clientIp sampleParse (some (a ++ 44 :: b)) 1 = 1 ∧
      clientIp sampleParse (some (a' ++ 44 :: b)) 1 = 7 :=
  ⟨[128], [], 32 :: sampleAddress, all_eq_true.mp (by decide), by decide, by decide, by decide⟩

end Sample
end Rosette.Directory
