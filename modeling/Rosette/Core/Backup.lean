import Rosette.Proto.Link

/-! # Account recovery

A random backup key seals a small payload. The key is wrapped twice, once under the user's
PIN and once under a phrase of five words; two salted hashes let a directory check either
secret without learning it. Which of the two a typed secret is meant to be is told by its
shape: four to six digits are a PIN, anything else is a phrase, read in lower case with
single spaces.
-/
namespace Rosette.Core
open Foundation Proto List

abbrev Secret := List Char

def bkLen : ℕ := 32
def saltLen : ℕ := 16
def nonceLen : ℕ := 24
def phraseWords : ℕ := 5

inductive BackupError where
  | invalidPin
  | wrongSecret
deriving DecidableEq

/-- Everything the directory stores for one account. -/
structure BackupBundle where
  blob : List UInt8
  wPin : List UInt8
  saltP : List UInt8
  wPhrase : List UInt8
  saltF : List UInt8
  authPin : List UInt8
  saltA : List UInt8
  authPhrase : List UInt8
  saltPa : List UInt8
deriving DecidableEq

/-- What the blob decrypts to. -/
structure BackupPayload where
  identity : Option (List UInt8)
  username : Option String
  contacts : List String
deriving DecidableEq

def BackupBundle.codec : Codec BackupBundle :=
  (vecCodec.pair (vecCodec.pair (vecCodec.pair (vecCodec.pair (vecCodec.pair (vecCodec.pair
    (vecCodec.pair (vecCodec.pair vecCodec)))))))).map
    (fun p => ⟨p.1, p.2.1, p.2.2.1, p.2.2.2.1, p.2.2.2.2.1, p.2.2.2.2.2.1, p.2.2.2.2.2.2.1,
      p.2.2.2.2.2.2.2.1, p.2.2.2.2.2.2.2.2⟩)
    (fun b => (b.blob, b.wPin, b.saltP, b.wPhrase, b.saltF, b.authPin, b.saltA, b.authPhrase,
      b.saltPa))
    (fun _ => rfl) (fun _ _ => rfl)

def BackupPayload.codec : Codec BackupPayload :=
  (vecCodec.option.pair (stringCodec.option.pair (stringCodec.list 8))).map
    (fun p => ⟨p.1, p.2.1, p.2.2⟩) (fun p => (p.identity, p.username, p.contacts))
    (fun _ => rfl) (fun _ _ => rfl)

theorem sized_vec : vecCodec.Sized := Codec.sized_byte.list

theorem sized_string : stringCodec.Sized := sized_vec.restrict _ _ _ _

theorem BackupBundle.sized_codec : BackupBundle.codec.Sized :=
  Codec.Sized.map (sized_vec.pair (sized_vec.pair (sized_vec.pair (sized_vec.pair (sized_vec.pair
    (sized_vec.pair (sized_vec.pair (sized_vec.pair sized_vec)))))))) _ _ _ _

theorem BackupPayload.sized_codec : BackupPayload.codec.Sized :=
  Codec.Sized.map (sized_vec.option.pair (sized_string.option.pair sized_string.list)) _ _ _ _

/-- The bytes of a value, in a vector; no vector is longer. -/
def serialize {α : Type} (c : Codec α) (a : α) : Option (List UInt8) :=
  if (c.encode a).length < 2 ^ 63 then some (c.encode a) else none

theorem deserialize_serialize {α : Type} {c : Codec α} (hc : c.Sized) {a : α} {bytes : List UInt8}
    (h : serialize c a = some bytes) : decodeFrom c bytes = some a := by
  unfold serialize at h
  split_ifs at h with hlen
  cases h
  have hd := decodeFrom_encode c a [] (hc.fits a (hlen.trans (by norm_num)))
  rwa [append_nil] at hd

/-- The primitives of the recovery scheme: Argon2id with its fixed parameters, SHA-256, and the
AEAD, which opens what it has sealed. -/
structure RecoveryCrypto where
  derive : List UInt8 → List UInt8 → Bytes bkLen
  sha256 : List UInt8 → Bytes bkLen
  encrypt : Bytes bkLen → Bytes nonceLen → List UInt8 → List UInt8
  decrypt : Bytes bkLen → Bytes nonceLen → List UInt8 → Option (List UInt8)
  decrypt_encrypt : ∀ key nonce plaintext,
    decrypt key nonce (encrypt key nonce plaintext) = some plaintext

/-- The lower case of Unicode; on ASCII it is the usual one. -/
structure LowerCase where
  toLowercase : Secret → Secret
  ascii : ∀ w, (∀ c ∈ w, c.toNat < 128) → toLowercase w = w.map Char.toLower

/-- The characters of the words a phrase is made of. -/
def alphabet : List Char :=
  ['a', 'b', 'c', 'd', 'e', 'f', 'g', 'h', 'i', 'j', 'k', 'l', 'm', 'n', 'o', 'p', 'q', 'r', 's',
    't', 'u', 'v', 'w', 'x', 'y', 'z', '-']

/-- The embedded list of words. -/
structure Wordlist where
  words : List Secret
  nonempty : words ≠ []
  clean : ∀ w ∈ words, w ≠ [] ∧ ∀ c ∈ w, c ∈ alphabet

def asBytes (s : Secret) : List UInt8 := s.flatMap String.utf8EncodeChar

def validatePin (pin : Secret) : Bool :=
  4 ≤ (asBytes pin).length && (asBytes pin).length ≤ 6 &&
    (asBytes pin).all (fun b => 48 ≤ b && b ≤ 57)

/-- The white space of Unicode. -/
def isWhitespace (c : Char) : Bool :=
  (9 ≤ c.toNat && c.toNat ≤ 13) || c.toNat = 0x20 || c.toNat = 0x85 || c.toNat = 0xA0 ||
    c.toNat = 0x1680 || (0x2000 ≤ c.toNat && c.toNat ≤ 0x200A) || c.toNat = 0x2028 ||
    c.toNat = 0x2029 || c.toNat = 0x202F || c.toNat = 0x205F || c.toNat = 0x3000

def splitWhitespace (s : Secret) : List Secret := (s.splitOnP isWhitespace).filter (· ≠ [])

def normalizePhrase (u : LowerCase) (input : Secret) : Secret :=
  [' '].intercalate ((splitWhitespace input).map u.toLowercase)

def Wordlist.drawn (l : Wordlist) (draw : Fin phraseWords → Fin l.words.length) : List Secret :=
  (ofFn draw).map l.words.get

def generatePhrase (l : Wordlist) (draw : Fin phraseWords → Fin l.words.length) : Secret :=
  [' '].intercalate (l.drawn draw)

section Functions
variable (k : RecoveryCrypto)

def aeadSeal (key : Bytes bkLen) (nonce : Bytes nonceLen) (plaintext : List UInt8) : List UInt8 :=
  nonce.toList ++ k.encrypt key nonce plaintext

def aeadOpen (key : Bytes bkLen) (data : List UInt8) : Except BackupError (List UInt8) :=
  if h : data.length < nonceLen then .error .wrongSecret
  else
    match k.decrypt key ⟨data.take nonceLen, length_take_of_le (not_lt.mp h)⟩
        (data.drop nonceLen) with
    | none => .error .wrongSecret
    | some plaintext => .ok plaintext

/-- The proof of a secret the directory compares. -/
def authHash (secret : Secret) (salt : List UInt8) : List UInt8 :=
  (k.sha256 (k.derive (asBytes secret) salt).toList).toList

def sealBlob (bk : Bytes bkLen) (nonce : Bytes nonceLen) (payload : List UInt8) : List UInt8 :=
  aeadSeal k bk nonce payload

def openBlob (bk : Bytes bkLen) (blob : List UInt8) : Except BackupError (List UInt8) :=
  aeadOpen k bk blob

def unwrapBk (secret : Secret) (salt wrapped : List UInt8) : Except BackupError (Bytes bkLen) :=
  match aeadOpen k (k.derive (asBytes secret) salt) wrapped with
  | .error e => .error e
  | .ok bytes => if h : bytes.length = bkLen then .ok ⟨bytes, h⟩ else .error .wrongSecret

def wrapBk (secret : Secret) (salt : List UInt8) (nonce : Bytes nonceLen) (bk : Bytes bkLen) :
    List UInt8 :=
  aeadSeal k (k.derive (asBytes secret) salt) nonce bk.toList

/-- The salts and nonces a bundle is built from. -/
structure BundleDraw where
  saltP : Bytes saltLen
  saltF : Bytes saltLen
  saltA : Bytes saltLen
  saltPa : Bytes saltLen
  blobNonce : Bytes nonceLen
  pinNonce : Bytes nonceLen
  phraseNonce : Bytes nonceLen

def buildBundle (d : BundleDraw) (pin phrase : Secret) (bk : Bytes bkLen) (payload : List UInt8) :
    Except BackupError BackupBundle :=
  if validatePin pin then .ok {
    blob := sealBlob k bk d.blobNonce payload
    wPin := wrapBk k pin d.saltP.toList d.pinNonce bk
    saltP := d.saltP.toList
    wPhrase := wrapBk k phrase d.saltF.toList d.phraseNonce bk
    saltF := d.saltF.toList
    authPin := authHash k pin d.saltA.toList
    saltA := d.saltA.toList
    authPhrase := authHash k phrase d.saltPa.toList
    saltPa := d.saltPa.toList }
  else .error .invalidPin

variable {k}

theorem aeadOpen_aeadSeal (key : Bytes bkLen) (nonce : Bytes nonceLen) (plaintext : List UInt8) :
    aeadOpen k key (aeadSeal k key nonce plaintext) = .ok plaintext := by
  have hlen : nonce.toList.length = nonceLen := nonce.toList_length
  have htake : (aeadSeal k key nonce plaintext).take nonceLen = nonce.toList := by
    exact take_left' hlen
  have hdrop : (aeadSeal k key nonce plaintext).drop nonceLen = k.encrypt key nonce plaintext := by
    exact drop_left' hlen
  have hlong : ¬ (aeadSeal k key nonce plaintext).length < nonceLen := by
    rw [aeadSeal, length_append, hlen]
    omega
  unfold aeadOpen
  rw [dif_neg hlong]
  have hnonce : ∀ h,
      (⟨(aeadSeal k key nonce plaintext).take nonceLen, h⟩ : Bytes nonceLen) = nonce :=
    fun _ => Subtype.ext htake
  rw [hnonce, hdrop, k.decrypt_encrypt]

theorem unwrapBk_wrapBk (secret : Secret) (salt : List UInt8) (nonce : Bytes nonceLen)
    (bk : Bytes bkLen) : unwrapBk k secret salt (wrapBk k secret salt nonce bk) = .ok bk := by
  unfold unwrapBk wrapBk
  rw [aeadOpen_aeadSeal]
  exact dif_pos bk.toList_length

end Functions

/-! ## Phrases as they are typed -/

/-- The words, typed with any white space around them and at least some between them. -/
inductive Spaced : List Secret → Secret → Prop where
  | nil : Spaced [] []
  | blank {c ws t} (h : isWhitespace c = true) (s : Spaced ws t) : Spaced ws (c :: t)
  | last (w) : Spaced [w] w
  | word (w) {c ws t} (h : isWhitespace c = true) (s : Spaced ws t) : Spaced (w :: ws) (w ++ c :: t)

def Recased (w w' : Secret) : Prop := Forall₂ (fun c c' => c' = c ∨ c' = c.toUpper) w w'

def Retypes (ws : List Secret) (typed : Secret) : Prop :=
  ∃ ws', Forall₂ Recased ws ws' ∧ Spaced ws' typed

section Phrases
variable {u : LowerCase} {w w' typed : Secret} {ws ws' : List Secret}

theorem alphabet_letters : ∀ c ∈ alphabet, ∀ c', c' = c ∨ c' = c.toUpper →
    c'.toNat < 128 ∧ c'.toLower = c ∧ isWhitespace c' = false ∧
      (String.utf8EncodeChar c').any (fun b => !(48 ≤ b && b ≤ 57)) = true := by
  have hall : alphabet.all (fun c => [c, c.toUpper].all fun c' =>
      c'.toNat < 128 ∧ c'.toLower = c ∧ isWhitespace c' = false ∧
        (String.utf8EncodeChar c').any (fun b => !(48 ≤ b && b ≤ 57)) = true) = true := by
    decide +kernel
  intro c hc c' hc'
  have hboth := all_eq_true.mp (all_eq_true.mp hall c hc) c' (by simpa using hc')
  exact of_decide_eq_true hboth

theorem Recased.reads (h : Recased w w') (hw : ∀ c ∈ w, c ∈ alphabet) :
    u.toLowercase w' = w ∧ ∀ c ∈ w', isWhitespace c = false := by
  have hletters : (∀ c ∈ w', c.toNat < 128) ∧ w'.map Char.toLower = w ∧
      ∀ c ∈ w', isWhitespace c = false := by
    induction h with
    | nil => simp
    | @cons c c' w w' hc h ih =>
      obtain ⟨hascii, hlower, hspace⟩ := ih fun d hd => hw d (mem_cons_of_mem _ hd)
      obtain ⟨hc₁, hc₂, hc₃, -⟩ := alphabet_letters c (hw c mem_cons_self) c' hc
      simp only [mem_cons, forall_eq_or_imp, map_cons, hc₂, hlower]
      exact ⟨⟨hc₁, hascii⟩, trivial, hc₃, hspace⟩
  obtain ⟨hascii, hlower, hspace⟩ := hletters
  exact ⟨(u.ascii w' hascii).trans hlower, hspace⟩

theorem Spaced.split (h : Spaced ws typed)
    (hw : ∀ w ∈ ws, w ≠ [] ∧ ∀ c ∈ w, isWhitespace c = false) : splitWhitespace typed = ws := by
  unfold splitWhitespace
  induction h with
  | nil => simp
  | @blank c ws t hc s ih =>
    rw [show c :: t = [] ++ c :: t from rfl,
      splitOnP_append_cons_of_forall_mem (by rintro x ⟨⟩) c hc]
    simpa using ih hw
  | last w =>
    obtain ⟨hne, hclean⟩ := hw w (mem_singleton.mpr rfl)
    rw [splitOnP_eq_singleton hclean]
    simp [hne]
  | @word w c ws t hc s ih =>
    obtain ⟨hne, hclean⟩ := hw w mem_cons_self
    rw [splitOnP_append_cons_of_forall_mem hclean c hc,
      filter_cons_of_pos (by simpa using hne),
      ih fun w hw' => hw w (mem_cons_of_mem _ hw')]

theorem Spaced.mem (h : Spaced ws typed) (hw : w ∈ ws) : ∀ c ∈ w, c ∈ typed := by
  induction h with
  | nil => cases hw
  | blank hc s ih => exact fun c hc' => mem_cons_of_mem _ (ih hw c hc')
  | last =>
    obtain rfl := mem_singleton.mp hw
    exact fun c hc => hc
  | word v hc s ih =>
    rcases mem_cons.mp hw with rfl | hw
    · exact fun c hc' => mem_append_left _ hc'
    · exact fun c hc' => mem_append_right _ (mem_cons_of_mem _ (ih hw c hc'))

theorem spaced_intercalate (ws : List Secret) : Spaced ws ([' '].intercalate ws) := by
  induction ws with
  | nil => exact .nil
  | cons w ws ih =>
    cases ws with
    | nil =>
      rw [intercalate_singleton]
      exact .last w
    | cons => exact .word w (by decide) ih

theorem forall₂_recased_refl (ws : List Secret) : Forall₂ Recased ws ws :=
  forall₂_same.mpr fun _ _ => forall₂_same.mpr fun _ _ => .inl rfl

theorem Retypes.normalize (h : Retypes ws typed) (hw : ∀ w ∈ ws, w ≠ [] ∧ ∀ c ∈ w, c ∈ alphabet) :
    normalizePhrase u typed = [' '].intercalate ws := by
  obtain ⟨ws', hcase, hspace⟩ := h
  have hword : (∀ w' ∈ ws', w' ≠ [] ∧ ∀ c ∈ w', isWhitespace c = false) ∧
      ws'.map u.toLowercase = ws := by
    clear hspace
    induction hcase with
    | nil => simp
    | @cons w w' ws ws' hcase hrest ih =>
      obtain ⟨hclean, hlower⟩ := ih fun v hv => hw v (mem_cons_of_mem _ hv)
      obtain ⟨hne, halpha⟩ := hw w mem_cons_self
      obtain ⟨hw₁, hw₂⟩ := Recased.reads (u := u) hcase halpha
      have hne' : w' ≠ [] := by
        rintro rfl
        cases hcase
        exact hne rfl
      simp only [mem_cons, forall_eq_or_imp, map_cons, hw₁, hlower]
      exact ⟨⟨⟨hne', hw₂⟩, hclean⟩, trivial⟩
  rw [normalizePhrase, hspace.split hword.1, hword.2]

theorem Retypes.not_pin (h : Retypes ws typed) (hne : ws ≠ [])
    (hw : ∀ w ∈ ws, w ≠ [] ∧ ∀ c ∈ w, c ∈ alphabet) : validatePin typed = false := by
  obtain ⟨ws', hcase, hspace⟩ := h
  cases hcase with
  | nil => exact absurd rfl hne
  | @cons w w' ws ws' hcase =>
    obtain ⟨hw₁, hw₂⟩ := hw w mem_cons_self
    cases hcase with
    | nil => exact absurd rfl hw₁
    | @cons c c' w w' hc =>
      obtain ⟨-, -, -, hdigit⟩ := alphabet_letters c (hw₂ c mem_cons_self) c' hc
      obtain ⟨b, hb, hnot⟩ := any_eq_true.mp hdigit
      have hmem : b ∈ asBytes typed := mem_flatMap.mpr
        ⟨c', hspace.mem mem_cons_self c' mem_cons_self, hb⟩
      have hall : (asBytes typed).all (fun b => 48 ≤ b && b ≤ 57) = false := by
        rw [all_eq_false]
        rw [Bool.not_eq_true'] at hnot
        exact ⟨b, hmem, by rw [hnot]; exact Bool.false_ne_true⟩
      rw [validatePin, hall, Bool.and_false]

end Phrases
end Rosette.Core
