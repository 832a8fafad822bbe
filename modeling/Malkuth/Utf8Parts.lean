import Malkuth.Utf8

/-! What the lossy decoder makes of bytes, part by part: a part is a character with all of its
bytes, or the bytes that one replacement stands for. -/
namespace Utf8

/-- `char` is `none` for a malformed part. -/
structure Part where
  bytes : List UInt8
  char : Option Char
  deriving DecidableEq

def Part.shown (part : Part) : Char := part.char.getD replacement

def Part.malformed (part : Part) : Bool := part.char.isNone

def firstPart (b : UInt8) : List Part × List UInt8 × Option Pending :=
  match first b.toNat with
  | (_,some p) => ([],[b],some p)
  | (cs,none) => ([⟨[b],if b.toNat ≤ 0x7F then cs.head? else none⟩],[],none)

/-- `held` are the bytes of the character that is not complete. -/
def nextPart (held : List UInt8) (pending : Option Pending) (b : UInt8) : List Part × List UInt8 × Option Pending :=
  match pending with
  | none => firstPart b
  | some p =>
    if p.low ≤ b.toNat ∧ b.toNat ≤ p.high then
      match next (some p) b.toNat with
      | (_,some q) => ([],held ++ [b],some q)
      | (cs,none) => ([⟨held ++ [b],cs.head?⟩],[],none)
    else
      let (later,held',pending') := firstPart b
      (⟨held,none⟩ :: later,held',pending')

def partsFrom : List UInt8 → Option Pending → List UInt8 → List Part
  | _, none, [] => []
  | held, some _, [] => [⟨held,none⟩]
  | held, pending, b :: bytes =>
    let (now,held',pending') := nextPart held pending b
    now ++ partsFrom held' pending' bytes

def parts (bytes : List UInt8) : List Part := partsFrom [] none bytes

-- Text, a continuation byte that is missing, a byte that never occurs, a character cut off.
example : parts [0x41,0xF0,0x9F,0x42,0xFF,0xC3,0xA9,0xE2,0x82] = [⟨[0x41],some 'A'⟩,⟨[0xF0,0x9F],none⟩,⟨[0x42],some 'B'⟩,
    ⟨[0xFF],none⟩,⟨[0xC3,0xA9],some 'é'⟩,⟨[0xE2,0x82],none⟩] := by decide

theorem utf8Size_ofNat (valid : n.isValidChar) : (Char.ofNat n).utf8Size =
    if n ≤ 0x7F then 1 else if n ≤ 0x7FF then 2 else if n ≤ 0xFFFF then 3 else 4 := by
  have value : (Char.ofNat n).val.toNat = n := by
    rw [Char.ofNat,dif_pos valid]
    rfl
  unfold Char.utf8Size
  simp only [UInt32.le_iff_toNat_le,value]
  rfl

/-- So many bytes have been read of a character, and this is owed: the six places inside one. -/
inductive Inside : Nat → Pending → Prop where
  | two (low : 2 ≤ v) (high : v ≤ 0x1F) : Inside 1 ⟨1,0x80,0xBF,v⟩
  | three (from_ : 0x80 ≤ l) (until_ : h ≤ 0xBF) (long : v = 0 → 0xA0 ≤ l) (plain : v = 0xD → h ≤ 0x9F) (high : v ≤ 0xF) :
    Inside 1 ⟨2,l,h,v⟩
  | three_ (low : 0x20 ≤ v) (high : v ≤ 0x3FF) (plain : v < 0x360 ∨ 0x37F < v) : Inside 2 ⟨1,0x80,0xBF,v⟩
  | four (from_ : 0x80 ≤ l) (until_ : h ≤ 0xBF) (long : v = 0 → 0x90 ≤ l) (last : v = 4 → h ≤ 0x8F) (high : v ≤ 4) :
    Inside 1 ⟨3,l,h,v⟩
  | four_ (low : 0x10 ≤ v) (high : v ≤ 0x10F) : Inside 2 ⟨2,0x80,0xBF,v⟩
  | four__ (low : 0x400 ≤ v) (high : v ≤ 0x43FF) : Inside 3 ⟨1,0x80,0xBF,v⟩

/-- What is held while this is pending. -/
def Held (held : List UInt8) : Option Pending → Prop
  | none => held = []
  | some p => Inside held.length p

def Part.Sound (part : Part) : Prop := ∀ c, part.char = some c → part.bytes.length = c.utf8Size

theorem inside_first (lead : (first b).2 = some p) : Inside 1 p := by
  unfold first at lead
  split_ifs at lead
  all_goals obtain rfl := Option.some.inj lead
  -- a lead byte of two bytes, then those of three, then those of four
  · exact .two (by omega) (by omega)
  iterate 4 exact .three (by omega) (by omega) (by omega) (by omega) (by omega)
  all_goals exact .four (by omega) (by omega) (by omega) (by omega) (by omega)

/-- The next byte of a character. -/
theorem inside_next (inside : Inside n p) (low : p.low ≤ b) (high : b ≤ p.high) :
    (∃ q, next (some p) b = ([],some q) ∧ Inside (n + 1) q) ∨
      ∃ c, next (some p) b = ([c],none) ∧ n + 1 = c.utf8Size := by
  have valid (v : Nat) (small : v < 0x110000) (plain : v < 0xD800 ∨ 0xDFFF < v) : v.isValidChar := by
    unfold Nat.isValidChar
    omega
  cases inside with
  | two low' high' =>
    refine .inr ⟨_,by simp only [next,if_pos (And.intro low high)]; rfl,?_⟩
    simp only at low high
    rw [utf8Size_ofNat (valid _ (by omega) (by omega))]
    split_ifs <;> omega
  | three from_ until_ long plain high' =>
    refine .inl ⟨_,by simp only [next,if_pos (And.intro low high)]; rfl,.three_ ?_ ?_ ?_⟩
    all_goals simp only at low high
    all_goals omega
  | three_ low' high' plain =>
    refine .inr ⟨_,by simp only [next,if_pos (And.intro low high)]; rfl,?_⟩
    simp only at low high
    rw [utf8Size_ofNat (valid _ (by omega) (by omega))]
    split_ifs <;> omega
  | four from_ until_ long last high' =>
    refine .inl ⟨_,by simp only [next,if_pos (And.intro low high)]; rfl,.four_ ?_ ?_⟩
    all_goals simp only at low high
    all_goals omega
  | four_ low' high' =>
    refine .inl ⟨_,by simp only [next,if_pos (And.intro low high)]; rfl,.four__ ?_ ?_⟩
    all_goals simp only at low high
    all_goals omega
  | four__ low' high' =>
    refine .inr ⟨_,by simp only [next,if_pos (And.intro low high)]; rfl,?_⟩
    simp only at low high
    rw [utf8Size_ofNat (valid _ (by omega) (by omega))]
    split_ifs <;> omega

/-- What one byte adds: the characters of the decoder, in sound parts that hold the bytes so far. -/
structure Adds (held : List UInt8) (chars : List Char × Option Pending) (b : UInt8)
    (r : List Part × List UInt8 × Option Pending) : Prop where
  shown : r.1.map Part.shown = chars.1
  pending : r.2.2 = chars.2
  bytes : r.1.flatMap Part.bytes ++ r.2.1 = held ++ [b]
  held : Held r.2.1 r.2.2
  sound : ∀ part ∈ r.1, part.Sound

theorem firstPart_adds (b : UInt8) : Adds [] (first b.toNat) b (firstPart b) := by
  cases lead : (first b.toNat).2 with
  | some p =>
    have none_ : (first b.toNat).1 = [] := by
      unfold first at lead ⊢
      split_ifs at lead ⊢ <;> rfl
    have eq : first b.toNat = ([],some p) := Prod.ext none_ lead
    rw [firstPart,eq]
    exact ⟨rfl,rfl,rfl,inside_first lead,by simp⟩
  | none =>
    by_cases ascii : b.toNat ≤ 0x7F
    · have eq : first b.toNat = ([Char.ofNat b.toNat],none) := by simp [first,ascii]
      rw [firstPart,eq]
      refine ⟨by simp [Part.shown,ascii],rfl,rfl,rfl,?_⟩
      intro part member c is
      obtain rfl := List.mem_singleton.mp member
      obtain rfl : Char.ofNat b.toNat = c := by simpa [ascii] using is
      have one : (Char.ofNat b.toNat).utf8Size = 1 := by
        rw [utf8Size_ofNat (n := b.toNat) (.inl (by omega)),if_pos ascii]
      simp [one]
    · have eq : first b.toNat = ([replacement],none) := by
        unfold first at lead ⊢
        split_ifs at lead ⊢
        rfl
      rw [firstPart,eq]
      refine ⟨by simp [Part.shown,ascii],rfl,rfl,rfl,?_⟩
      intro part member c is
      obtain rfl := List.mem_singleton.mp member
      simp [ascii] at is

theorem nextPart_adds (held_ : Held held pending) (b : UInt8) :
    Adds held (next pending b.toNat) b (nextPart held pending b) := by
  cases pending with
  | none =>
    obtain rfl : held = [] := held_
    exact firstPart_adds b
  | some p =>
    by_cases accepted : p.low ≤ b.toNat ∧ b.toNat ≤ p.high
    · rcases inside_next held_ accepted.1 accepted.2 with ⟨q,eq,inside⟩ | ⟨c,eq,size_⟩
      · simp only [nextPart,if_pos accepted,eq]
        exact ⟨rfl,rfl,rfl,by simpa [Held] using inside,by simp⟩
      · simp only [nextPart,if_pos accepted,eq]
        refine ⟨rfl,rfl,by simp,rfl,?_⟩
        intro part member d is
        obtain rfl := List.mem_singleton.mp member
        obtain rfl : c = d := by simpa using is
        simpa using size_
    · have begun := firstPart_adds b
      simp only [nextPart,if_neg accepted,next]
      refine ⟨?_,begun.pending,?_,begun.held,?_⟩
      · rw [List.map_cons,begun.shown]
        rfl
      · simpa using congrArg (held ++ ·) begun.bytes
      · intro part member
        rcases List.mem_cons.mp member with rfl | later
        · intro c is
          cases is
        · exact begun.sound part later

theorem partsFrom_spec (held_ : Held held pending) (bytes : List UInt8) :
    (partsFrom held pending bytes).map Part.shown = decode pending bytes ∧
      (partsFrom held pending bytes).flatMap Part.bytes = held ++ bytes ∧ ∀ part ∈ partsFrom held pending bytes, part.Sound := by
  induction bytes generalizing held pending with
  | nil =>
    cases pending with
    | none =>
      obtain rfl : held = [] := held_
      exact ⟨rfl,rfl,by simp [partsFrom]⟩
    | some p =>
      refine ⟨rfl,rfl,?_⟩
      intro part member c is
      obtain rfl := List.mem_singleton.mp member
      cases is
  | cons b bytes ih =>
    have adds := nextPart_adds held_ b
    obtain ⟨shown,flat,sound⟩ := ih adds.held
    have eq : partsFrom held pending (b :: bytes) = (nextPart held pending b).1 ++
        partsFrom (nextPart held pending b).2.1 (nextPart held pending b).2.2 bytes := by cases pending <;> rfl
    have decoded : decode pending (b :: bytes) = (next pending b.toNat).1 ++ decode (next pending b.toNat).2 bytes := by
      cases pending <;> rfl
    rw [eq,decoded]
    refine ⟨?_,?_,?_⟩
    · rw [List.map_append,shown,adds.shown,adds.pending]
    · rw [List.flatMap_append,flat,← List.append_assoc,adds.bytes,List.append_assoc,List.singleton_append]
    · intro part member
      rcases List.mem_append.mp member with now | later
      · exact adds.sound part now
      · exact sound part later

theorem held_nil : Held [] none := rfl

/-- The parts of bytes are the bytes, -/
theorem flatMap_parts (bytes : List UInt8) : (parts bytes).flatMap Part.bytes = bytes := (partsFrom_spec held_nil bytes).2.1

/-- each of them is a character of the decoded text, -/
theorem map_parts (bytes : List UInt8) : (parts bytes).map Part.shown = fromUtf8Lossy bytes := (partsFrom_spec held_nil bytes).1

theorem parts_sound (bytes : List UInt8) : ∀ part ∈ parts bytes, part.Sound := (partsFrom_spec held_nil bytes).2.2

/-- and the text grows over the bytes by what its replacements take more than what they replace. -/
theorem size_shown (ps : List Part) (sound : ∀ part ∈ ps, part.Sound) :
    size (ps.map Part.shown) + ((ps.filter Part.malformed).flatMap Part.bytes).length =
      (ps.flatMap Part.bytes).length + 3 * (ps.filter Part.malformed).length := by
  induction ps with
  | nil => rfl
  | cons part ps ih =>
    obtain ⟨here,others⟩ := List.forall_mem_cons.mp sound
    have rest := ih others
    rw [List.map_cons,size_cons,List.flatMap_cons,List.length_append]
    cases char : part.char with
    | none =>
      have wide : part.shown.utf8Size = 3 := by
        rw [Part.shown,char]
        decide
      have bad : part.malformed = true := by simp [Part.malformed,char]
      rw [List.filter_cons_of_pos bad,List.flatMap_cons,List.length_append,List.length_cons,wide]
      omega
    | some c =>
      have wide : part.shown.utf8Size = part.bytes.length := by
        rw [Part.shown,char,here c char]
        rfl
      have good : ¬ part.malformed = true := by simp [Part.malformed,char]
      rw [List.filter_cons_of_neg good,wide]
      omega

end Utf8
