import Rosette.Core.Reading
import Mathlib.Data.List.TakeWhile

/-! # A group without secrets

A stand-in for OpenMLS to run the model with. Its messages are readable: a commit lists
the authors of all commits up to it, an application message names its sender, its epoch
and its place among the sender's messages of that epoch. What the real group refuses,
this one refuses too: own messages, commits and messages of another epoch, repetitions.
-/
namespace Rosette.Core
open Foundation Proto List

variable {authors history bytes : List UInt8} {author : UInt8} {s : PlainStorage × PlainGroup}

/-- One member's view of a group. Names are not zero. -/
structure PlainGroup where
  me : UInt8
  /-- The authors of the commits so far; their number is the epoch. -/
  history : List UInt8
  /-- An own commit is built and not merged. -/
  pending : Bool
  /-- Own messages of this epoch. -/
  sent : ℕ
  /-- The next message of this epoch to expect from a member. -/
  heard : UInt8 → ℕ

/-- Storage: the private halves of key packages, and the group. -/
structure PlainStorage where
  keys : List UInt8
  group : Option PlainGroup

structure PlainWelcome where
  key : UInt8
  joiner : UInt8
  founder : UInt8

namespace PlainGroup

def commitWire (history : List UInt8) (author : UInt8) : Wire := 1 :: (history ++ [author])

def messageWire (sender : UInt8) (epoch generation : ℕ) (plaintext : List UInt8) : Wire :=
  2 :: sender :: UInt8.ofNat epoch :: UInt8.ofNat generation :: UInt8.ofNat plaintext.length ::
    plaintext

def advance (g : PlainGroup) (author : UInt8) : PlainGroup :=
  { g with history := g.history ++ [author], pending := false, sent := 0, heard := fun _ => 0 }

def hear (g : PlainGroup) (sender : UInt8) (generation : ℕ) : PlainGroup :=
  { g with heard := Function.update g.heard sender (generation + 1) }

end PlainGroup

def PlainStorage.save (p : PlainStorage) (g : PlainGroup) : PlainStorage × PlainGroup :=
  ({ p with group := some g }, g)

section Operations
open PlainGroup

def plainDeserialize (bytes : List UInt8) :
    Except String (MessageBody PlainWelcome (List UInt8) (UInt8 × UInt8)) :=
  if bytes.head? = some 1 ∨ bytes.head? = some 2 then .ok (.protocol bytes)
  else match bytes with
    | [] => .error "empty"
    | kind :: body =>
      if kind = 3 then .ok (.keyPackage (body.getD 0 0, body.getD 1 0))
      else if kind = 4 then .ok (.welcome ⟨body.getD 0 0, body.getD 1 0, body.getD 2 0⟩)
      else .error "unknown wire format"

def plainSelfUpdate (s : PlainStorage × PlainGroup) :
    (PlainStorage × PlainGroup) × Except String Wire :=
  if s.2.pending then (s, .error "pending commit")
  else (s.1.save { s.2 with pending := true }, .ok (commitWire s.2.history s.2.me))

def plainMergePending (s : PlainStorage × PlainGroup) :
    (PlainStorage × PlainGroup) × Except String Unit :=
  if s.2.pending then (s.1.save (s.2.advance s.2.me), .ok ()) else (s, .ok ())

def plainAddMembers (s : PlainStorage × PlainGroup) :
    List (UInt8 × UInt8) → (PlainStorage × PlainGroup) × Except String Wire
  | [(joiner, key)] => (s.1.save { s.2 with pending := true }, .ok [4, key, joiner, s.2.me])
  | _ => (s, .error "one member at a time")

def plainJoin (p : PlainStorage) (w : PlainWelcome) : PlainStorage × Except String PlainGroup :=
  if w.key ∈ p.keys then
    let g : PlainGroup := ⟨w.joiner, [w.founder], false, 0, fun _ => 0⟩
    (⟨p.keys.erase w.key, some g⟩, .ok g)
  else (p, .error "no matching key package")

def plainCreateMessage (s : PlainStorage × PlainGroup) (plaintext : List UInt8) :
    (PlainStorage × PlainGroup) × Except String Wire :=
  if s.2.history.length < 256 ∧ s.2.sent < 256 ∧ plaintext.length < 256 then
    (s.1.save { s.2 with sent := s.2.sent + 1 },
      .ok (messageWire s.2.me s.2.history.length s.2.sent plaintext))
  else (s, .error "message does not fit")

/-- A commit must extend the history by another member. -/
def plainCommit (s : PlainStorage × PlainGroup) (authors : List UInt8) :
    (PlainStorage × PlainGroup) × Except String (Processed UInt8) :=
  match authors.getLast? with
  | none => (s, .error "malformed commit")
  | some author =>
    if author = s.2.me then (s, .error "own commit")
    else if authors = s.2.history ++ [author] then (s, .ok (.stagedCommit author))
    else (s, .error "wrong epoch")

/-- A message must be of this epoch, from another member, and new. -/
def plainMessage (s : PlainStorage × PlainGroup) :
    List UInt8 → (PlainStorage × PlainGroup) × Except String (Processed UInt8)
  | sender :: epoch :: generation :: length :: body =>
    if sender = s.2.me then (s, .error "own message")
    else if epoch.toNat ≠ s.2.history.length then (s, .error "wrong epoch")
    else if generation.toNat < s.2.heard sender then (s, .error "secret reuse")
    else (s.1.save (s.2.hear sender generation.toNat), .ok (.application (body.take length.toNat)))
  | _ => (s, .error "malformed message")

def plainProcess (s : PlainStorage × PlainGroup) (bytes : List UInt8) :
    (PlainStorage × PlainGroup) × Except String (Processed UInt8) :=
  if bytes.head? = some 1 then plainCommit s (bytes.tail.takeWhile (· ≠ 0))
  else plainMessage s bytes.tail

end Operations

/-- The stand-in. A draw names identities and key packages. -/
def OpenMls.plain : OpenMls where
  Provider := PlainStorage
  Identity := UInt8
  Group := PlainGroup
  GroupId := Unit
  KeyPackage := UInt8 × UInt8
  Welcome := PlainWelcome
  Tree := Unit
  Message := List UInt8
  Staged := UInt8
  newIdentity _ rand := (⟨[], none⟩, UInt8.ofNat rand)
  deserialize := plainDeserialize
  deserializeTree bytes := if bytes.head? = some 5 then .ok () else .error "not a tree"
  epoch g := UInt64.ofNat g.history.length
  groupId _ := ()
  load p _ := .ok p.group
  exportRatchetTree _ := [5]
  newKeyPackage rand p me :=
    ({ p with keys := UInt8.ofNat rand :: p.keys }, .ok (me, UInt8.ofNat rand))
  keyPackageBytes k := [3, k.1, k.2]
  validate k := .ok k
  newGroup _ p me :=
    ({ p with group := some ⟨me, [], false, 0, fun _ => 0⟩ }, .ok ⟨me, [], false, 0, fun _ => 0⟩)
  addMembers _ _ s keyPackages := plainAddMembers s keyPackages
  joinGroup p w _ := plainJoin p w
  selfUpdate _ _ s := plainSelfUpdate s
  mergePendingCommit := plainMergePending
  clearPendingCommit s := (s.1.save { s.2 with pending := false }, .ok ())
  createMessage _ _ s plaintext := plainCreateMessage s plaintext
  processMessage := plainProcess
  mergeStagedCommit s author := (s.1.save (s.2.advance author), .ok ())

/-! ## Its commits -/

namespace PlainGroup

/-- The commits that led from one history to a longer one. -/
def wires : List UInt8 → List UInt8 → List Wire
  | _, [] => []
  | start, author :: authors => commitWire start author :: wires (start ++ [author]) authors

theorem wires_snoc (start authors : List UInt8) (author : UInt8) :
    wires start (authors ++ [author]) = wires start authors ++
      [commitWire (start ++ authors) author] := by
  induction authors generalizing start with
  | nil => simp [wires]
  | cons a authors ih => simp [wires, ih]

theorem wires_injective {start authors' : List UInt8}
    (h : wires start authors = wires start authors') : authors = authors' := by
  induction authors generalizing start authors' with
  | nil =>
    cases authors' with
    | nil => rfl
    | cons => cases h
  | cons a authors ih =>
    cases authors' with
    | nil => cases h
    | cons a' =>
      obtain ⟨hhead, htail⟩ := cons.inj h
      have ha : a = a' := by simpa [commitWire] using hhead
      subst ha
      rw [ih htail]

theorem takeWhile_pad (h : 0 ∉ authors) (k : ℕ) :
    (authors ++ replicate k 0).takeWhile (· ≠ 0) = authors := by
  rw [takeWhile_append_of_pos (fun a ha => by
    have hne : a ≠ 0 := fun h0 => h (h0 ▸ ha)
    simpa using hne)]
  cases k <;> simp [replicate_succ]

theorem padded_commit {padded : List UInt8} (h : 0 ∉ history ++ [author])
    (hp : pad (commitWire history author) = some padded) :
    padded.head? = some 1 ∧ padded.tail.takeWhile (· ≠ 0) = history ++ [author] := by
  obtain ⟨k, rfl, -⟩ := pad_eq_append hp
  exact ⟨rfl, takeWhile_pad h k⟩

end PlainGroup

section Laws
open PlainGroup
variable {κ : Type} (name : κ → UInt8) (start : List UInt8)

/-- Members have distinct nonzero names. -/
structure Named : Prop where
  injective : Function.Injective name
  nonzero : ∀ i, name i ≠ 0
  start : 0 ∉ start

def PlainStands (i : κ) (g : PlainGroup) (merged : List Wire) (pending : Option Wire) : Prop :=
  g.me = name i ∧ pending = (if g.pending then some (commitWire g.history g.me) else none) ∧
  ∃ authors, 0 ∉ authors ∧ g.history = start ++ authors ∧ merged = wires start authors

def PlainCommits (i : κ) (merged : List Wire) (wire : Wire) : Prop :=
  ∃ authors, 0 ∉ authors ∧ merged = wires start authors ∧
    wire = commitWire (start ++ authors) (name i)

variable {name start} {i j : κ} {g : PlainGroup} {merged merged' : List Wire} {wire wire' : Wire}
  {pending : Option Wire} {s' : PlainStorage × PlainGroup} {m : List UInt8}

theorem Named.commit (hn : Named name start) (h : 0 ∉ authors) (i : κ) :
    0 ∉ start ++ authors ++ [name i] := by
  simp only [mem_append, mem_singleton, not_or]
  exact ⟨⟨hn.start, h⟩, (hn.nonzero i).symm⟩

theorem PlainStands.advance (hn : Named name start) (h : PlainStands name start i g merged pending)
    (hc : PlainCommits name start j merged wire) :
    PlainStands name start i (g.advance (name j)) (merged ++ [wire]) none := by
  obtain ⟨hme, -, authors, hz, hh, rfl⟩ := h
  obtain ⟨authors', -, hm, rfl⟩ := hc
  obtain rfl := wires_injective hm
  refine ⟨hme, rfl, authors ++ [name j], ?_, ?_, (wires_snoc _ _ _).symm⟩
  · simp only [mem_append, mem_singleton, not_or]
    exact ⟨hz, (hn.nonzero j).symm⟩
  · rw [PlainGroup.advance, hh, append_assoc]

theorem PlainStands.commits (h : PlainStands name start i g merged pending) :
    PlainCommits name start i merged (commitWire g.history g.me) := by
  obtain ⟨hme, -, authors, hz, hh, rfl⟩ := h
  exact ⟨authors, hz, rfl, by rw [hh, hme]⟩

theorem epoch_advance (g : PlainGroup) (author : UInt8) :
    OpenMls.plain.epoch (g.advance author) = OpenMls.plain.epoch g + 1 := by
  change UInt64.ofNat (g.history ++ [author]).length = UInt64.ofNat g.history.length + 1
  rw [length_append, UInt64.ofNat_add]
  rfl

theorem PlainStands.idle (h : PlainStands name start i g merged none) : g.pending = false := by
  by_contra hp
  rw [Bool.not_eq_false] at hp
  have hnone := h.2.1
  simp [if_pos hp] at hnone

theorem PlainStands.busy (h : PlainStands name start i g merged (some wire)) :
    g.pending = true ∧ wire = commitWire g.history g.me := by
  have hsome := h.2.1
  split_ifs at hsome with hp
  exact ⟨hp, Option.some.inj hsome⟩

section Operations
variable (s : PlainStorage × PlainGroup)

theorem plainSelfUpdate_idle (h : s.2.pending = false) : plainSelfUpdate s =
    (s.1.save { s.2 with pending := true }, .ok (commitWire s.2.history s.2.me)) := by
  unfold plainSelfUpdate
  rw [h]
  rfl

theorem plainSelfUpdate_busy (h : s.2.pending = true) :
    plainSelfUpdate s = (s, .error "pending commit") := by
  unfold plainSelfUpdate
  rw [if_pos h]

theorem plainMergePending_busy (h : s.2.pending = true) :
    plainMergePending s = (s.1.save (s.2.advance s.2.me), .ok ()) := by
  unfold plainMergePending
  rw [if_pos h]

theorem plainDeserialize_commit (h : bytes.head? = some 1) :
    plainDeserialize bytes = .ok (.protocol bytes) := by
  unfold plainDeserialize
  rw [if_pos (.inl h)]

theorem plainProcess_commit (h : bytes.head? = some 1)
    (hr : bytes.tail.takeWhile (· ≠ 0) = history ++ [author]) :
    plainProcess s bytes = if author = s.2.me then (s, .error "own commit")
      else if history = s.2.history then (s, .ok (.stagedCommit author))
      else (s, .error "wrong epoch") := by
  unfold plainProcess
  rw [if_pos h, hr]
  unfold plainCommit
  rw [getLast?_concat]
  simp only [append_left_inj]

end Operations

def CommitLaws.plain (hn : Named name start) : CommitLaws OpenMls.plain κ where
  Stands i _ s merged pending := PlainStands name start i s.2 merged pending
  Commits := PlainCommits name start
  build {i id s merged} h rand s' r hs := by
    have hs' := (plainSelfUpdate_idle s h.idle).symm.trans hs
    cases hs'
    refine ⟨rfl, by rintro err ⟨⟩, ?_⟩
    rintro wire ⟨⟩
    exact ⟨⟨h.1, rfl, h.2.2⟩, h.commits⟩
  busy {i id s merged wire} h rand := ⟨_, plainSelfUpdate_busy s h.busy.1⟩
  merge {i id s merged wire} h := by
    obtain ⟨hp, hwire⟩ := h.busy
    refine ⟨_, plainMergePending_busy s hp, ?_, epoch_advance s.2 s.2.me⟩
    change PlainStands name start i (PlainGroup.advance s.2 (PlainGroup.me s.2)) _ _
    rw [h.1]
    exact h.advance hn (hwire ▸ h.commits)
  clear {i id s merged pending} h := ⟨_, rfl, ⟨h.1, rfl, h.2.2⟩, rfl⟩
  apply {i j id s merged pending wire padded} h hc hne hp := by
    have hadvance := h.advance hn hc
    obtain ⟨authors, hz, hm, rfl⟩ := hc
    obtain ⟨hhead, hread⟩ := padded_commit (hn.commit hz j) hp
    have hme : ¬ name j = PlainGroup.me s.2 := by
      rw [h.1]
      exact fun he => hne (hn.injective he)
    have hhist : start ++ authors = PlainGroup.history s.2 := by
      obtain ⟨-, -, authors', -, hh, hm'⟩ := h
      rw [hh, wires_injective (hm'.symm.trans hm)]
    have hproc := plainProcess_commit s hhead hread
    rw [if_neg hme, if_pos hhist] at hproc
    exact ⟨padded, s, name j, _, plainDeserialize_commit hhead, hproc, rfl, hadvance,
      epoch_advance s.2 (name j)⟩
  tells {i j merged merged' wire wire'} h h' hpad hsome := by
    obtain ⟨authors, hz, rfl, rfl⟩ := h
    obtain ⟨authors', hz', rfl, rfl⟩ := h'
    obtain ⟨padded, hp⟩ := Option.isSome_iff_exists.mp hsome
    have hread := (padded_commit (hn.commit hz i) hp).2
    have hread' := (padded_commit (hn.commit hz' j) (hpad ▸ hp)).2
    rw [hread] at hread'
    obtain ⟨hauthors, hname⟩ := append_inj' hread' rfl
    exact ⟨hn.injective (cons.inj hname).1, by rw [append_cancel_left hauthors]⟩

theorem plainProcess_application {content : List UInt8}
    (h : plainProcess s m = (s', .ok (.application content))) :
    ∃ sender generation, s' = s.1.save (s.2.hear sender generation) := by
  unfold plainProcess at h
  split_ifs at h
  · unfold plainCommit at h
    split at h
    · cases h
    · split_ifs at h <;> cases h
  · unfold plainMessage at h
    split at h
    · split_ifs at h <;> cases h
      exact ⟨_, _, rfl⟩
    · cases h

theorem plainProcess_staged (h : plainProcess s m = (s', .ok (.stagedCommit author))) :
    s' = s ∧ author ≠ 0 := by
  unfold plainProcess at h
  split_ifs at h
  · unfold plainCommit at h
    split at h
    · cases h
    · rename_i author' hlast
      split_ifs at h <;> cases h
      have hmem := mem_of_getLast? hlast
      exact ⟨rfl, by simpa using mem_takeWhile_imp hmem⟩
  · unfold plainMessage at h
    split at h
    · split_ifs at h <;> cases h
    · cases h

theorem CommitLaws.plain_atWork (hn : Named name start) : (CommitLaws.plain hn).AtWork where
  builds {i id s merged} h rand := ⟨_, _, plainSelfUpdate_idle s (PlainStands.idle h)⟩
  reads {i id s merged pending m s' bytes} h hp := by
    obtain ⟨sender, generation, rfl⟩ := plainProcess_application hp
    exact ⟨h, rfl⟩
  merges {i id s merged pending m s₁ staged s₂} h hp hm := by
    obtain ⟨author, rfl⟩ : ∃ author : UInt8, author = staged := ⟨staged, rfl⟩
    obtain ⟨rfl, hne⟩ := plainProcess_staged hp
    cases hm
    obtain ⟨hme, -, authors, hz, hh, -⟩ := h
    refine ⟨wires start (authors ++ [author]), ⟨hme, rfl, authors ++ [author], ?_, ?_, rfl⟩,
      epoch_advance s₁.2 author⟩
    · simp only [mem_append, mem_singleton, not_or]
      exact ⟨hz, hne.symm⟩
    · change PlainGroup.history s₁.2 ++ [author] = _
      rw [hh, append_assoc]

end Laws

/-! ## Its messages -/

section Messages
open PlainGroup

/-- What a member expects next of each other one, once it has been handed these messages. -/
def heardAfter (past : List (List UInt8)) : UInt8 → ℕ :=
  past.foldl (fun heard bytes => match bytes with
    | _ :: sender :: _ :: generation :: _ =>
      Function.update heard sender (max (heard sender) (generation.toNat + 1))
    | _ => heard) (fun _ => 0)

/-- The message of another member, padded. -/
structure PlainForeign (me : UInt8) (epoch : ℕ) (sender : UInt8) (generation : ℕ)
    (bytes : List UInt8) : Prop where
  other : sender ≠ me
  reads : ∃ e g length body, bytes = 2 :: sender :: e :: g :: length :: body ∧
    e.toNat = epoch ∧ g.toNat = generation

def plainContent : List UInt8 → List UInt8
  | _ :: _ :: _ :: _ :: length :: body => body.take length.toNat
  | _ => []

/-- A member of one epoch: what it was handed, and what it built. -/
structure PlainTalks (me : UInt8) (history : List UInt8) (g : PlainGroup) (past : List (List UInt8))
    (sent : List Wire) : Prop where
  name : g.me = me
  epoch : g.history = history
  heard : g.heard = heardAfter past
  count : g.sent = sent.length
  built : ∀ n wire, sent[n]? = some wire → history.length < 256 ∧ n < 256 ∧
    ∃ plaintext, plaintext.length < 256 ∧ wire = messageWire me history.length n plaintext

variable {me : UInt8} {past : List (List UInt8)} {sent : List Wire} {sender : UInt8}
  {generation : ℕ}

theorem heardAfter_snoc {e g length : UInt8} {body : List UInt8} :
    heardAfter (past ++ [2 :: sender :: e :: g :: length :: body]) =
      Function.update (heardAfter past) sender (max (heardAfter past sender) (g.toNat + 1)) := by
  rw [heardAfter, foldl_append]
  rfl

theorem plainDeserialize_message (body : List UInt8) :
    plainDeserialize (2 :: body) = .ok (.protocol (2 :: body)) := by
  simp [plainDeserialize]

theorem plainProcess_foreign (h : PlainTalks me history s.2 past sent)
    (hf : PlainForeign me history.length sender generation bytes) :
    ∃ s', plainProcess s bytes = (s', if heardAfter past sender ≤ generation
        then .ok (.application (plainContent bytes)) else .error "secret reuse") ∧
      PlainTalks me history s'.2 (past ++ [bytes]) sent := by
  obtain ⟨hne, e, g, length, body, rfl, he, rfl⟩ := hf
  have hme : ¬ sender = s.2.me := by
    rw [h.name]
    exact hne
  have hep : ¬ e.toNat ≠ s.2.history.length := by
    rw [h.epoch]
    exact not_not.mpr he
  have hp : plainProcess s (2 :: sender :: e :: g :: length :: body) =
      if g.toNat < s.2.heard sender then (s, .error "secret reuse")
      else (s.1.save (s.2.hear sender g.toNat), .ok (.application (body.take length.toNat))) := by
    simp [plainProcess, plainMessage, hme, hep]
  rw [hp, h.heard]
  by_cases hg : heardAfter past sender ≤ g.toNat
  · rw [if_neg (Nat.not_lt.mpr hg), if_pos hg]
    refine ⟨_, rfl, h.name, h.epoch, ?_, h.count, h.built⟩
    rw [heardAfter_snoc, max_eq_right (Nat.le_succ_of_le hg), ← h.heard]
    rfl
  · rw [if_pos (Nat.lt_of_not_le hg), if_neg hg]
    refine ⟨_, rfl, h.name, h.epoch, ?_, h.count, h.built⟩
    rw [heardAfter_snoc, max_eq_left (Nat.lt_of_not_le hg), Function.update_eq_self, h.heard]

theorem plainContent_built {plaintext : List UInt8} (hl : plaintext.length < 256) {epoch n : ℕ}
    (hp : pad (messageWire me epoch n plaintext) = some bytes) :
    plainContent bytes = plaintext := by
  obtain ⟨k, rfl, -⟩ := pad_eq_append hp
  have hlen : (UInt8.ofNat plaintext.length).toNat = plaintext.length := by
    exact Nat.mod_eq_of_lt hl
  change (plaintext ++ replicate k 0).take (UInt8.ofNat plaintext.length).toNat = plaintext
  rw [hlen, take_left]

def plainFollows (me : UInt8) (epoch : ℕ) (past : List (List UInt8)) : List UInt8 → Bool
  | kind :: sender :: e :: g :: _ :: _ =>
    kind = 2 ∧ sender ≠ me ∧ e.toNat = epoch ∧ heardAfter past sender ≤ g.toNat
  | _ => false

def ReadLaws.plain (me : UInt8) (history : List UInt8) : ReadLaws OpenMls.plain where
  Stands _ s past sent := PlainTalks me history s.2 past sent
  Follows past bytes :=
    ∃ sender generation, PlainForeign me history.length sender generation bytes ∧
    heardAfter past sender ≤ generation
  Late past bytes := ∃ sender generation, PlainForeign me history.length sender generation bytes ∧
    ¬ heardAfter past sender ≤ generation
  content := plainContent
  read {id s past sent bytes} h hf := by
    obtain ⟨sender, generation, hf, hturn⟩ := hf
    obtain ⟨s', hp, hs'⟩ := plainProcess_foreign h hf
    obtain ⟨-, e, g, length, body, rfl, -, -⟩ := hf
    rw [if_pos hturn] at hp
    exact ⟨_, s', plainDeserialize_message _, hp, hs'⟩
  late {id s past sent bytes} h hl := by
    obtain ⟨sender, generation, hf, hturn⟩ := hl
    obtain ⟨s', hp, hs'⟩ := plainProcess_foreign h hf
    obtain ⟨-, e, g, length, body, rfl, -, -⟩ := hf
    rw [if_neg hturn] at hp
    exact ⟨_, s', _, plainDeserialize_message _, hp, hs', Or.inl ⟨_, rfl⟩⟩
  create {id s past sent} h rand plaintext s' r hc := by
    change plainCreateMessage s plaintext = (s', r) at hc
    unfold plainCreateMessage at hc
    split_ifs at hc with hfits
    · cases hc
      refine ⟨by rintro err ⟨⟩, ?_⟩
      rintro wire ⟨⟩
      obtain ⟨hhist, hsent, hlen⟩ := hfits
      refine ⟨⟨h.name, h.epoch, h.heard, ?_, fun n wire hw => ?_⟩, fun bytes hp => ?_⟩
      · rw [length_append, ← h.count]
        rfl
      · by_cases hn : n < sent.length
        · rw [getElem?_append_left hn] at hw
          exact h.built n wire hw
        · have hn' : n = sent.length := by
            have hlt := (List.getElem?_eq_some_iff.mp hw).1
            rw [length_append, length_singleton] at hlt
            omega
          subst hn'
          rw [getElem?_concat_length] at hw
          cases hw
          rw [h.epoch] at hhist
          rw [h.count] at hsent
          refine ⟨hhist, hsent, plaintext, hlen, ?_⟩
          rw [h.name, h.epoch, h.count]
      · exact plainContent_built hlen hp
    · cases hc
      exact ⟨fun _ _ => h, by rintro wire ⟨⟩⟩
  newKeyPackage h rand := h

theorem ReadLaws.plain_follows (h : plainFollows me history.length past bytes = true) :
    (ReadLaws.plain me history).Follows past bytes := by
  unfold plainFollows at h
  split at h
  · obtain ⟨rfl, hne, he, hg⟩ := of_decide_eq_true h
    exact ⟨_, _, ⟨hne, _, _, _, _, rfl, he, rfl⟩, hg⟩
  · cases h

end Messages
end Rosette.Core
