import ZZ9K.Archive.LhaAgree
import Mathlib.Data.List.DropRight

namespace ZZ9K.Archive

/-- A 16-bit field -/
def le16 (n : Nat) : Bytes := [UInt8.ofNat n,UInt8.ofNat (n/2^8)]

/-- A 32-bit field -/
def le32 (n : Nat) : Bytes :=
  [UInt8.ofNat n,UInt8.ofNat (n/2^8),UInt8.ofNat (n/2^16),UInt8.ofNat (n/2^24)]

/-- An extension header -/
structure LhaExtension where
  type : UInt8
  text : Bytes
  text_fits : text.length+3 < 2^16

/-- The size a chain of extension headers is announced with: that of its first one, which counts
the type and the size of the next one -/
def chainAnnounced : List LhaExtension → Nat
  | [] => 0
  | e::_ => e.text.length+3

/-- The bytes of a chain -/
def chainBytes : List LhaExtension → Bytes
  | [] => []
  | e::es => e.type::(e.text++(le16 (chainAnnounced es)++chainBytes es))

/-- The three kinds of member header. Level 0 may have anything behind the CRC; a level-2 header is
padded to its declared size. -/
inductive LhaShape
  | level0 (name area : Bytes)
  | level1 (name : Bytes) (os : UInt8) (extensions : List LhaExtension)
  | level2 (os : UInt8) (extensions : List LhaExtension) (pad : Bytes)

namespace LhaShape

def name : LhaShape → Bytes
  | level0 name _ | level1 name _ _ => name
  | level2 _ _ _ => []

def extensions : LhaShape → List LhaExtension
  | level0 _ _ => []
  | level1 _ _ extensions | level2 _ extensions _ => extensions

def pad : LhaShape → Bytes
  | level2 _ _ pad => pad
  | _ => []

/-- The size field holds the size of the header: one byte at levels 0 and 1, which does not count
itself and the checksum, and two at level 2, whose first is not 0. -/
def Fits : LhaShape → Prop
  | level0 name area => 22+name.length+area.length < 2^8
  | level1 name _ _ => 25+name.length < 2^8
  | level2 _ extensions pad => 26+(chainBytes extensions).length+pad.length < 2^16 ∧
      (26+(chainBytes extensions).length+pad.length)%2^8 ≠ 0

/-- What the packed size field counts beside the data -/
def packedChain : LhaShape → Nat
  | level1 _ _ extensions => (chainBytes extensions).length
  | _ => 0

end LhaShape

/-- A member of an archive as a writer lays it out -/
structure LhaMember where
  letter : UInt8
  digit : UInt8
  originalSize : Nat
  stamp : Nat
  attrs : UInt8
  crc : Nat
  data : Bytes
  shape : LhaShape
  letter_ok : letter = 0x68 ∨ letter = 0x7a
  originalSize_lt : originalSize < 2^32
  crc_lt : crc < 2^16
  shape_fits : shape.Fits
  packed_lt : shape.packedChain+data.length < 2^32

namespace LhaMember

variable (m : LhaMember)

def methodId : Bytes := [0x2d,0x6c,m.letter,m.digit,0x2d]

/-- The fields from the method to the level -/
def fixed (level : UInt8) : Bytes :=
  m.methodId++(le32 (m.shape.packedChain+m.data.length)++(le32 m.originalSize++
    (le32 m.stamp++[m.attrs,level])))

/-- What the checksum covers, at levels 0 and 1 -/
def base (level : UInt8) (name more : Bytes) : Bytes :=
  m.fixed level++(UInt8.ofNat name.length::(name++(le16 m.crc++more)))

/-- The size and the checksum of a base header, and the header -/
def summed (base : Bytes) : Bytes := UInt8.ofNat base.length::base.foldl (· + ·) 0::base

/-- All of the header -/
def header : Bytes :=
  match m.shape with
  | .level0 name area => summed (m.base 0 name area)
  | .level1 name os extensions =>
    summed (m.base 1 name (os::le16 (chainAnnounced extensions)))++chainBytes extensions
  | .level2 os extensions pad =>
    le16 (26+(chainBytes extensions).length+pad.length)++(m.fixed 2++(le16 m.crc++
      (os::(le16 (chainAnnounced extensions)++(chainBytes extensions++pad)))))

def bytes : Bytes := m.header++m.data

end LhaMember

/-- An archive: its members, and an end that is no member: a zero byte, nothing, or less than a
header -/
structure LhaArchive where
  members : List LhaMember
  tail : Bytes
  tail_ends : byte tail 0 = 0 ∨ tail.length < 24

def LhaArchive.bytes (a : LhaArchive) : Bytes := a.members.flatMap LhaMember.bytes++a.tail

/-- What the listing says about where a member is and what it is to be checked against -/
structure LhaPlace where
  dataOffset : Nat
  compressedSize : Nat
  uncompressedSize : Nat
  crc16 : Nat
  deriving DecidableEq

def ArchiveEntry.place (entry : ArchiveEntry) : LhaPlace :=
  ⟨entry.dataOffset,entry.compressedSize,entry.uncompressedSize,entry.crc32⟩

/-- Where the members are that are laid out from `pos` on -/
def places : Nat → List LhaMember → List LhaPlace
  | _,[] => []
  | pos,m::ms =>
    ⟨pos+m.header.length,m.data.length,m.originalSize,m.crc⟩::places (pos+m.bytes.length) ms

/-- The directory and the name that a chain gives, if both can be held -/
def chainNames : List LhaExtension → CString × CString → Option (CString × CString)
  | [],given => some given
  | e::es,(dir,name) =>
    let text := e.text.rdropWhile (· = 0)
    if e.type = 1 ∧ text ≠ [] then
      (copyLhaName text text.length).bind fun name => chainNames es (dir,name)
    else if e.type = 2 ∧ text ≠ [] then
      (copyLhaName text text.length).bind fun dir => chainNames es (dir,name)
    else chainNames es (dir,name)

/-- The name of a member, if it can be held -/
def LhaMember.entryName (m : LhaMember) : Option CString :=
  (chainNames m.shape.extensions ([],[])).bind fun (dir,name) =>
    ((if m.shape.name ≠ [] then copyLhaName m.shape.name m.shape.name.length
      else some lhaUnnamed).bind fun base =>
        if name ≠ [] then lhaJoinDirName dir name
        else if dir ≠ [] then lhaJoinDirName dir base
        else some base).bind fun joined =>
      if lhaMethod m.methodId = lhaMethodLhd then lhaDirName {pos := 0,dir,name} joined
      else some joined

section

variable {p q : Bytes}

theorem byte_append_left {i : Nat} (h : i < p.length) : byte (p++q) i = byte p i := by
  unfold byte
  rw [List.getD_append _ _ _ _ h]

theorem byte_append_right (i : Nat) : byte (p++q) (p.length+i) = byte q i := by
  unfold byte
  rw [List.getD_append_right _ _ _ _ (Nat.le_add_right _ _),Nat.add_sub_cancel_left]

theorem getLe16_le16 (n : Nat) (q : Bytes) : getLe16 (le16 n++q) 0 = n%2^16 := by
  have h0 : byte (le16 n++q) 0 = n%2^8 := UInt8.toNat_ofNat'
  have h1 : byte (le16 n++q) (0+1) = n/2^8%2^8 := UInt8.toNat_ofNat'
  rw [getLe16,h0,h1]
  omega

theorem getLe32_le32 (n : Nat) (q : Bytes) : getLe32 (le32 n++q) 0 = n%2^32 := by
  have h0 : byte (le32 n++q) 0 = n%2^8 := UInt8.toNat_ofNat'
  have h1 : byte (le32 n++q) (0+1) = n/2^8%2^8 := UInt8.toNat_ofNat'
  have h2 : byte (le32 n++q) (0+2) = n/2^16%2^8 := UInt8.toNat_ofNat'
  have h3 : byte (le32 n++q) (0+3) = n/2^24%2^8 := UInt8.toNat_ofNat'
  rw [getLe32,h0,h1,h2,h3]
  omega

theorem getLe16_append (i : Nat) : getLe16 (p++q) (p.length+i) = getLe16 q i := by
  rw [getLe16,getLe16,byte_append_right,Nat.add_assoc,byte_append_right]

theorem getLe32_append (i : Nat) : getLe32 (p++q) (p.length+i) = getLe32 q i := by
  simp only [getLe32,byte_append_right,Nat.add_assoc]

@[simp] theorem length_le16 (n : Nat) : (le16 n).length = 2 := rfl

@[simp] theorem length_le32 (n : Nat) : (le32 n).length = 4 := rfl

/-- Trimming counts the text without the NULs at its end. -/
theorem lhaTrimExt_text (before after : Bytes) (text : Bytes) (type : UInt8) :
    lhaTrimExt (before++(type::(text++after))) before.length text.length =
      (text.rdropWhile (· = 0)).length := by
  induction text using List.reverseRecOn generalizing after with
  | nil => rfl
  | append_singleton text c ih =>
    have hc : byte (before++(type::(text++[c]++after))) (before.length+1+text.length) =
        c.toNat := by
      rw [Nat.add_assoc,byte_append_right,Nat.add_comm 1,List.append_assoc]
      have hskip := @byte_append_right (type::text) ([c]++after) 0
      exact hskip
    have hrest := ih ([c]++after)
    rw [List.append_assoc] at hc ⊢
    rw [List.length_append,List.length_singleton,lhaTrimExt,hc,List.rdropWhile_concat]
    by_cases hzero : c = 0
    · rw [if_pos (by rw [hzero]; rfl),if_pos (decide_eq_true hzero)]
      exact hrest
    · have hnat : c.toNat ≠ 0 := fun h => hzero (UInt8.toNat_inj.mp h)
      rw [if_neg hnat,if_neg (by simpa using hzero),List.length_append,List.length_singleton]

theorem copyLhaName_slice {src text : Bytes} {n : Nat} (h : text.length = n) (hsrc : text <+: src) :
    copyLhaName src n = copyLhaName text text.length := by
  obtain ⟨rest,rfl⟩ := hsrc
  unfold copyLhaName copyZipName copyName
  rw [← h,List.take_left,List.take_length]

/-- What one extension header says, in the place where the loop reads it -/
theorem lhaExtText_extension (e : LhaExtension) (before after : Bytes) (x : LhaExt)
    (hpos : x.pos = before.length) :
    lhaExtText (before++(e.type::(e.text++after))) (e.text.length+3) x =
      if e.type = 1 ∧ e.text.rdropWhile (· = 0) ≠ [] then
        (copyLhaName (e.text.rdropWhile (· = 0)) (e.text.rdropWhile (· = 0)).length).map
          fun name => {x with name}
      else if e.type = 2 ∧ e.text.rdropWhile (· = 0) ≠ [] then
        (copyLhaName (e.text.rdropWhile (· = 0)) (e.text.rdropWhile (· = 0)).length).map
          fun dir => {x with dir}
      else some x := by
  have htrim := lhaTrimExt_text before after e.text e.type
  have htype : byte (before++(e.type::(e.text++after))) before.length = e.type.toNat :=
    @byte_append_right before (e.type::(e.text++after)) 0
  have hdrop : (before++(e.type::(e.text++after))).drop (before.length+1) = e.text++after := by
    rw [← List.drop_drop,List.drop_left]
    rfl
  have hcopy : copyLhaName (e.text++after) (e.text.rdropWhile (· = 0)).length =
      copyLhaName (e.text.rdropWhile (· = 0)) (e.text.rdropWhile (· = 0)).length :=
    copyLhaName_slice rfl ((List.rdropWhile_prefix _ _).trans (List.prefix_append _ _))
  have hone : e.type.toNat = 1 ↔ e.type = 1 := UInt8.toNat_inj (b := 1)
  have htwo : e.type.toNat = 2 ↔ e.type = 2 := UInt8.toNat_inj (b := 2)
  unfold lhaExtText
  simp only [Nat.add_sub_cancel,hpos,htrim,htype,hdrop,hcopy,hone,htwo,ne_eq,
    List.length_eq_zero_iff]

theorem chainAnnounced_lt (es : List LhaExtension) : chainAnnounced es < 2^16 := by
  cases es with
  | nil => exact Nat.two_pow_pos 16
  | cons e es => exact e.text_fits

/-- The loop over extension headers reads a chain to its end. -/
theorem lhaExtLoop_chain (es : List LhaExtension) (before after : Bytes) (x : LhaExt)
    (hpos : x.pos = before.length) :
    lhaExtLoop (before++(chainBytes es++after)) (chainAnnounced es) x =
      match chainNames es (x.dir,x.name) with
      | none => .invalid
      | some (dir,name) => .ok {
          pos := x.pos+(chainBytes es).length
          total := x.total+(chainBytes es).length
          dir
          name } := by
  induction es generalizing before x with
  | nil =>
    rw [chainAnnounced,lhaExtLoop,if_pos rfl]
    rfl
  | cons e es ih =>
    have hbytes : chainBytes (e::es)++after =
        e.type::(e.text++(le16 (chainAnnounced es)++(chainBytes es++after))) := by
      simp only [chainBytes,List.cons_append,List.append_assoc]
    have hlength : (before++(e.type::(e.text++(le16 (chainAnnounced es)++
        (chainBytes es++after))))).length =
        before.length+(e.text.length+3)+(chainBytes es++after).length := by
      simp only [List.length_append,List.length_cons,length_le16]
      omega
    have hnext : getLe16 (before++(e.type::(e.text++(le16 (chainAnnounced es)++
        (chainBytes es++after))))) (x.pos+(e.text.length+3)-2) = chainAnnounced es := by
      have hplace : x.pos+(e.text.length+3)-2 = before.length+((e.type::e.text).length+0) := by
        rw [hpos,List.length_cons]
        omega
      have hsmall := chainAnnounced_lt es
      rw [hplace,getLe16_append,← List.cons_append,getLe16_append,getLe16_le16,
        Nat.mod_eq_of_lt hsmall]
    have hcut : ¬((before++(e.type::(e.text++(le16 (chainAnnounced es)++
        (chainBytes es++after))))).length < x.pos ∨
        (before++(e.type::(e.text++(le16 (chainAnnounced es)++
          (chainBytes es++after))))).length-x.pos < e.text.length+3) := by omega
    have hrest : ∀ y : LhaExt,
        lhaExtLoop (before++(e.type::(e.text++(le16 (chainAnnounced es)++(chainBytes es++after)))))
          (chainAnnounced es)
          {y with pos := x.pos+(e.text.length+3),total := x.total+(e.text.length+3)} =
        match chainNames es (y.dir,y.name) with
        | none => .invalid
        | some (dir,name) => .ok {
            pos := x.pos+(chainBytes (e::es)).length
            total := x.total+(chainBytes (e::es)).length
            dir
            name } := by
      intro y
      have hsplit : before++(e.type::(e.text++(le16 (chainAnnounced es)++(chainBytes es++after)))) =
          (before++(e.type::(e.text++le16 (chainAnnounced es))))++(chainBytes es++after) := by
        simp only [List.append_assoc,List.cons_append]
      have hplace : x.pos+(e.text.length+3) =
          (before++(e.type::(e.text++le16 (chainAnnounced es)))).length := by
        simp only [hpos,List.length_append,List.length_cons,length_le16]
      have hgrown : (chainBytes (e::es)).length = e.text.length+3+(chainBytes es).length := by
        simp only [chainBytes,List.length_cons,List.length_append,length_le16]
        omega
      rw [hsplit,ih _ {y with pos := x.pos+(e.text.length+3),total := x.total+(e.text.length+3)}
        hplace,hgrown]
      simp only [Nat.add_assoc]
    rw [hbytes,lhaExtLoop,chainAnnounced,if_neg (Nat.succ_ne_zero _),dif_neg hcut,
      dif_neg (show ¬e.text.length+3 < 3 by omega),lhaExtText_extension e before _ x hpos,hnext,
      chainNames]
    split_ifs with hname hdir
    · cases copyLhaName (e.text.rdropWhile (· = 0)) (e.text.rdropWhile (· = 0)).length with
      | none => rfl
      | some name => exact hrest {x with name}
    · cases copyLhaName (e.text.rdropWhile (· = 0)) (e.text.rdropWhile (· = 0)).length with
      | none => rfl
      | some dir => exact hrest {x with dir}
    · exact hrest x

end

namespace LhaMember

variable (m : LhaMember)

/-- Where the chain of a member ends, or its base header if it has no chain -/
def chainEnd : Nat := m.header.length-m.shape.pad.length

/-- The entry that the parser makes of a member -/
def readEntry (name : CString) : ArchiveEntry :=
  {name
   method := lhaMethod m.methodId
   flags := archiveEntryFlagCrc32
   crc32 := m.crc
   dataOffset := m.chainEnd
   compressedSize := m.data.length
   uncompressedSize := m.originalSize
   isDir := lhaMethod m.methodId = lhaMethodLhd ∨ nameEndsWithSlash name}

/-- What the parser finds in a header -/
structure Seen (hdr : Bytes) : Prop where
  long : 24 ≤ hdr.length
  filled : byte hdr 0 ≠ 0
  level : lhaLevel hdr ≤ 2
  base : lhaBaseCut hdr (lhaLayout hdr) = false
  size : (lhaLayout hdr).baseHeaderSize ≤ (lhaLayout hdr).headerSize
  checksum : lhaHeaderChecksumValid hdr = true
  nameFits : lhaLevel hdr = 2 ∨
    (lhaLayout hdr).nameLen ≤ (lhaLayout hdr).headerSize-(lhaLayout hdr).baseHeaderSize
  extensions : lhaExtensions hdr (lhaLayout hdr) =
    match chainNames m.shape.extensions ([],[]) with
    | none => .invalid
    | some (dir,name) => .ok {
        pos := m.chainEnd
        total := (chainBytes m.shape.extensions).length
        dir
        name }
  method : slice hdr 2 5 = m.methodId
  packed : getLe32 hdr 7 = m.shape.packedChain+m.data.length
  chain : m.shape.packedChain =
    if lhaLevel hdr = 1 then (chainBytes m.shape.extensions).length else 0
  original : getLe32 hdr 11 = m.originalSize
  crcInside : (lhaLayout hdr).crcOffset+2 ≤ hdr.length
  crc : getLe16 hdr (lhaLayout hdr).crcOffset = m.crc
  name : (if (lhaLayout hdr).nameLen ≠ 0 then
      copyLhaName (hdr.drop (lhaLayout hdr).nameOffset) (lhaLayout hdr).nameLen
    else some lhaUnnamed) = if m.shape.name ≠ [] then
      copyLhaName m.shape.name m.shape.name.length else some lhaUnnamed

variable {m} {hdr : Bytes}

theorem Seen.compressed (h : m.Seen hdr) {x : LhaExt}
    (hx : x.total = (chainBytes m.shape.extensions).length) :
    lhaCompressedSize hdr x = some m.data.length := by
  unfold lhaCompressedSize
  rw [h.packed,h.chain,hx]
  by_cases hlevel : lhaLevel hdr = 1
  · simp only [hlevel,if_true,true_and]
    split_ifs with hchain hless
    · omega
    · rw [Nat.add_sub_cancel_left]
    · rw [not_not.mp hchain,Nat.zero_add]
  · simp only [hlevel,if_false,false_and,Nat.zero_add]

theorem Seen.entry (h : m.Seen hdr) {avail : Nat} (havail : m.chainEnd+m.data.length ≤ avail)
    {dir name : CString} (hnames : chainNames m.shape.extensions ([],[]) = some (dir,name)) :
    lhaEntry hdr (lhaLayout hdr) {
      pos := m.chainEnd
      total := (chainBytes m.shape.extensions).length
      dir
      name } avail = m.entryName.map m.readEntry := by
  have hroom : ¬(avail < m.data.length ∨ avail < m.chainEnd ∨
      avail-m.chainEnd < m.data.length) := by omega
  unfold lhaEntry entryName lhaEntryName
  rw [h.compressed rfl,hnames,h.name,h.method,h.original]
  simp only [Option.bind_eq_bind,Option.bind_some,hroom,if_false,h.crcInside,decide_true,if_true,
    h.crc]
  generalize (if m.shape.name ≠ [] then copyLhaName m.shape.name m.shape.name.length
    else some lhaUnnamed) = base
  cases base with
  | none => rfl
  | some base =>
    simp only [Option.bind_some]
    generalize (if name ≠ [] then lhaJoinDirName dir name
      else if dir ≠ [] then lhaJoinDirName dir base else some base) = joined
    cases joined with
    | none => rfl
    | some joined =>
      simp only [Option.bind_some]
      have hdir : lhaDirName {
          pos := m.chainEnd
          total := (chainBytes m.shape.extensions).length
          dir
          name } joined = lhaDirName {pos := 0,dir,name} joined := rfl
      rw [hdir]
      generalize (if lhaMethod m.methodId = lhaMethodLhd then
        lhaDirName {pos := 0,dir,name} joined else some joined) = final
      cases final with
      | none => rfl
      | some final => rfl

theorem methodPlausible (h : slice hdr 2 5 = m.methodId) : lhaMethodPlausible hdr = true := by
  have hbyte : ∀ i,i < 5 → byte hdr (2+i) = byte m.methodId i := by
    intro i hi
    rw [← h,byte_slice hdr hi]
  have h4 : byte hdr 4 = m.letter.toNat := hbyte 2 (by decide)
  have hletter : m.letter.toNat = 0x68 ∨ m.letter.toNat = 0x7a := by
    rcases m.letter_ok with hl | hl
    · exact .inl (by rw [hl]; rfl)
    · exact .inr (by rw [hl]; rfl)
  refine decide_eq_true ⟨hbyte 0 (by decide),hbyte 4 (by decide),hbyte 1 (by decide),?_⟩
  rw [h4]
  exact hletter

/-- A header that is seen as it was laid out is read, if its name can be held. -/
theorem Seen.parse (h : m.Seen hdr) {avail : Nat} (havail : m.chainEnd+m.data.length ≤ avail) :
    lhaParseHeader hdr avail =
      match m.entryName with
      | none => .invalid
      | some name => .ok (m.readEntry name) := by
  have hvalid : ¬((lhaLayout hdr).headerSize < (lhaLayout hdr).baseHeaderSize ∨
      lhaHeaderChecksumValid hdr = false ∨ lhaMethodPlausible hdr = false) := by
    rw [h.checksum,methodPlausible h.method]
    simpa using h.size
  have hname : ¬(lhaLevel hdr ≠ 2 ∧
      (lhaLayout hdr).headerSize-(lhaLayout hdr).baseHeaderSize < (lhaLayout hdr).nameLen) := by
    have hfits := h.nameFits
    omega
  unfold lhaParseHeader
  rw [if_neg (Nat.not_lt_of_le h.long),if_neg h.filled,if_neg (Nat.not_lt_of_le h.level)]
  dsimp only
  rw [h.base,if_neg (by decide),if_neg hvalid,if_neg hname,h.extensions]
  cases hnames : chainNames m.shape.extensions ([],[]) with
  | none =>
    rw [entryName,hnames]
    rfl
  | some given =>
    obtain ⟨dir,name⟩ := given
    dsimp only
    rw [h.entry havail hnames]
    cases m.entryName <;> rfl

section

variable (m) (a b level : UInt8) (after : Bytes)

@[simp] theorem length_fixed : (m.fixed level).length = 19 := rfl

theorem fixed_level : lhaLevel (a::b::(m.fixed level++after)) = level.toNat := rfl

theorem fixed_method : slice (a::b::(m.fixed level++after)) 2 5 = m.methodId := rfl

theorem fixed_packed : getLe32 (a::b::(m.fixed level++after)) 7 =
    m.shape.packedChain+m.data.length := by
  have hskip : getLe32 (a::b::(m.fixed level++after)) 7 =
      getLe32 (le32 (m.shape.packedChain+m.data.length)++((le32 m.originalSize++
        (le32 m.stamp++[m.attrs,level]))++after)) 0 := rfl
  rw [hskip,getLe32_le32,Nat.mod_eq_of_lt m.packed_lt]

theorem fixed_original : getLe32 (a::b::(m.fixed level++after)) 11 = m.originalSize := by
  have hskip : getLe32 (a::b::(m.fixed level++after)) 11 =
      getLe32 (le32 m.originalSize++((le32 m.stamp++[m.attrs,level])++after)) 0 := rfl
  rw [hskip,getLe32_le32,Nat.mod_eq_of_lt m.originalSize_lt]

/-- What follows the fixed fields at levels 0 and 1: the name and the CRC -/
theorem fixed_nameLen (name : Bytes) (h : name.length < 2^8) :
    byte (a::b::(m.fixed level++(UInt8.ofNat name.length::after))) 21 = name.length := by
  have hbyte : byte (a::b::(m.fixed level++(UInt8.ofNat name.length::after))) 21 =
      (UInt8.ofNat name.length).toNat := rfl
  rw [hbyte,UInt8.toNat_ofNat',Nat.mod_eq_of_lt h]

theorem fixed_name (n : UInt8) (name : Bytes) :
    (a::b::(m.fixed level++(n::(name++after)))).drop 22 = name++after := rfl

theorem fixed_crc (n : UInt8) (name : Bytes) :
    getLe16 (a::b::(m.fixed level++(n::(name++(le16 m.crc++after))))) (22+name.length) =
      m.crc := by
  have hsplit : a::b::(m.fixed level++(n::(name++(le16 m.crc++after)))) =
      (a::b::(m.fixed level++(n::name)))++(le16 m.crc++after) := by
    simp only [List.append_assoc,List.cons_append]
  have hplace : 22+name.length = (a::b::(m.fixed level++(n::name))).length+0 := by
    simp only [List.length_cons,List.length_append,length_fixed]
    omega
  rw [hsplit,hplace,getLe16_append,getLe16_le16,Nat.mod_eq_of_lt m.crc_lt]

theorem name_held (n : UInt8) (name : Bytes) (h : n.toNat = name.length) :
    (if n.toNat ≠ 0 then copyLhaName
        ((a::b::(m.fixed level++(n::(name++after)))).drop 22) n.toNat
      else some lhaUnnamed) =
      if name ≠ [] then copyLhaName name name.length else some lhaUnnamed := by
  have hempty : name.length ≠ 0 ↔ name ≠ [] := by
    rw [ne_eq,ne_eq,List.length_eq_zero_iff]
  rw [fixed_name,h,copyLhaName_slice rfl (List.prefix_append name after)]
  simp only [hempty]

end

/-- A base header that begins as the size and the checksum of what follows is valid. -/
theorem summed_valid (base after : Bytes) (hsize : base.length < 2^8) (hlong : 22 ≤ base.length)
    (hlevel : lhaLevel (summed base++after) ≠ 2) :
    byte (summed base++after) 0 = base.length ∧
      lhaHeaderChecksumValid (summed base++after) = true := by
  have hzero : byte (summed base++after) 0 = base.length := by
    have hbyte : byte (summed base++after) 0 = (UInt8.ofNat base.length).toNat := rfl
    rw [hbyte,UInt8.toNat_ofNat',Nat.mod_eq_of_lt hsize]
  have hlength : (summed base++after).length = base.length+2+after.length := by
    rw [List.length_append]
    rfl
  have hone : byte (summed base++after) 1 = (base.foldl (· + ·) 0).toNat := rfl
  have hslice : slice (summed base++after) 2 base.length = base := List.take_left
  refine ⟨hzero,?_⟩
  unfold lhaHeaderChecksumValid
  rw [hzero,hone,hslice,if_neg (by omega),
    if_neg (show byte (summed base++after) 20 ≠ 2 from hlevel),if_neg (by omega)]
  exact decide_eq_true rfl

theorem length_base (level : UInt8) (name more : Bytes) :
    (m.base level name more).length = 22+name.length+more.length := by
  simp only [base,List.length_append,List.length_cons,length_fixed,length_le16]
  omega

theorem length_summed (base : Bytes) : (summed base).length = 2+base.length := by
  rw [summed,List.length_cons,List.length_cons]
  omega

/-- Levels 0 and 1 have the same fields up to the CRC. -/
theorem seen_summed {level : UInt8} {name more after : Bytes} (hlevel : level.toNat ≤ 1)
    (hsize : 22+name.length+more.length < 2^8) (hmore : level.toNat = 1 → 3 ≤ more.length)
    (hname : m.shape.name = name)
    (hchain : m.shape.packedChain =
      if level.toNat = 1 then (chainBytes m.shape.extensions).length else 0)
    (hextensions : lhaExtensions (summed (m.base level name more)++after) {
        headerSize := 22+name.length+more.length
        baseHeaderSize := if level.toNat = 0 then 22 else 25
        crcOffset := 22+name.length
        extSizeOffset := 22+name.length+2+1
        nameLen := name.length
        nameOffset := 22
        dataOffset := 2+(22+name.length+more.length) } =
      match chainNames m.shape.extensions ([],[]) with
      | none => .invalid
      | some (dir,name) => .ok {
          pos := m.chainEnd
          total := (chainBytes m.shape.extensions).length
          dir
          name }) :
    m.Seen (summed (m.base level name more)++after) := by
  obtain ⟨sum,hsum⟩ : ∃ sum, sum = (m.base level name more).foldl (· + ·) 0 := ⟨_,rfl⟩
  have hbase := @length_base m level name more
  obtain ⟨hdr,hhdr⟩ : ∃ hdr, hdr = summed (m.base level name more)++after := ⟨_,rfl⟩
  have hfixed : hdr = UInt8.ofNat (22+name.length+more.length)::sum::(m.fixed level++
      (UInt8.ofNat name.length::(name++(le16 m.crc++(more++after))))) := by
    rw [hhdr,summed,hbase,← hsum]
    simp only [base,List.append_assoc,List.cons_append]
  have hlevelByte : lhaLevel hdr = level.toNat := by
    rw [hfixed]
    exact fixed_level m _ _ _ _
  have hn : (UInt8.ofNat name.length).toNat = name.length := by
    rw [UInt8.toNat_ofNat',Nat.mod_eq_of_lt (by omega)]
  have h21 : byte hdr 21 = name.length := by
    rw [hfixed]
    exact fixed_nameLen m _ _ _ _ name (by omega)
  obtain ⟨hzero,hchecksum⟩ := summed_valid (m.base level name more) after (by omega) (by omega)
    (by rw [← hhdr,hlevelByte]; omega)
  rw [← hhdr] at hzero hchecksum
  rw [hbase] at hzero
  have hlength : hdr.length = 24+name.length+more.length+after.length := by
    rw [hhdr,List.length_append,length_summed,hbase]
    omega
  have hlayout : lhaLayout hdr = {
      headerSize := 22+name.length+more.length
      baseHeaderSize := if level.toNat = 0 then 22 else 25
      crcOffset := 22+name.length
      extSizeOffset := 22+name.length+2+1
      nameLen := name.length
      nameOffset := 22
      dataOffset := 2+(22+name.length+more.length) } := by
    unfold lhaLayout
    rw [hlevelByte,hzero,h21,if_neg (show level.toNat ≠ 2 by omega)]
  rw [← hhdr,← hlayout] at hextensions
  rw [← hhdr]
  refine {
    long := by omega
    filled := by omega
    level := by omega
    base := ?_
    size := ?_
    checksum := hchecksum
    nameFits := ?_
    extensions := hextensions
    method := by rw [hfixed]; exact fixed_method m _ _ _ _
    packed := by rw [hfixed]; exact fixed_packed m _ _ _ _
    chain := by rw [hlevelByte]; exact hchain
    original := by rw [hfixed]; exact fixed_original m _ _ _ _
    crcInside := ?_
    crc := ?_
    name := ?_ }
  · rw [hlayout,lhaBaseCut,hlevelByte]
    exact decide_eq_false (by dsimp only; omega)
  · rw [hlayout]
    dsimp only
    split_ifs <;> omega
  · rw [hlayout]
    dsimp only
    split_ifs <;> omega
  · rw [hlayout]
    dsimp only
    omega
  · rw [hlayout,hfixed]
    exact fixed_crc m _ _ _ _ _ name
  · rw [hlayout,hname]
    have hheld := name_held m (UInt8.ofNat (22+name.length+more.length)) sum level
      (le16 m.crc++(more++after)) (UInt8.ofNat name.length) name hn
    rw [← hfixed,hn] at hheld
    exact hheld

theorem seen_level0 {name area : Bytes} (hshape : m.shape = .level0 name area) (rest : Bytes) :
    m.Seen (m.bytes++rest) := by
  have hfits : 22+name.length+area.length < 2^8 := by
    have h := m.shape_fits
    rw [hshape] at h
    exact h
  have hheader : m.header = summed (m.base 0 name area) := by
    unfold header
    rw [hshape]
  rw [bytes,hheader,List.append_assoc]
  refine seen_summed (by decide) hfits (fun h => nomatch h) (by rw [hshape]; rfl)
    (by rw [hshape]; rfl) ?_
  have hend : m.chainEnd = 2+(22+name.length+area.length) := by
    rw [chainEnd,hheader,hshape,length_summed,length_base]
    rfl
  have hlevel : lhaLevel (summed (m.base 0 name area)++(m.data++rest)) = 0 := rfl
  unfold lhaExtensions
  rw [hlevel,if_neg (by decide),hend,hshape]
  rfl

theorem seen_level1 {name : Bytes} {os : UInt8} {es : List LhaExtension}
    (hshape : m.shape = .level1 name os es) (rest : Bytes) : m.Seen (m.bytes++rest) := by
  have hfits : 25+name.length < 2^8 := by
    have h := m.shape_fits
    rw [hshape] at h
    exact h
  have hheader : m.header = summed (m.base 1 name (os::le16 (chainAnnounced es)))++
      chainBytes es := by
    unfold header
    rw [hshape]
  have hmore : (os::le16 (chainAnnounced es)).length = 3 := rfl
  rw [bytes,hheader,List.append_assoc,List.append_assoc]
  refine seen_summed (by decide) (by omega) (fun _ => Nat.le_refl 3) (by rw [hshape]; rfl)
    (by rw [hshape]; rfl) ?_
  have hend : m.chainEnd = 2+(22+name.length+3)+(chainBytes es).length := by
    rw [chainEnd,hheader,hshape,List.length_append,length_summed,length_base]
    rfl
  have hlevel : lhaLevel (summed (m.base 1 name (os::le16 (chainAnnounced es)))++
      (chainBytes es++(m.data++rest))) = 1 := rfl
  have hannounced : getLe16 (summed (m.base 1 name (os::le16 (chainAnnounced es)))++
      (chainBytes es++(m.data++rest))) (22+name.length+2+1) = chainAnnounced es := by
    obtain ⟨before,hbefore⟩ : ∃ before : Bytes, before = UInt8.ofNat
        (m.base 1 name (os::le16 (chainAnnounced es))).length::
        (m.base 1 name (os::le16 (chainAnnounced es))).foldl (· + ·) 0::(m.fixed 1++
          (UInt8.ofNat name.length::(name++(le16 m.crc++[os])))) := ⟨_,rfl⟩
    have hsplit : summed (m.base 1 name (os::le16 (chainAnnounced es)))++
        (chainBytes es++(m.data++rest)) =
        before++(le16 (chainAnnounced es)++(chainBytes es++(m.data++rest))) := by
      rw [hbefore,summed]
      simp only [base,List.append_assoc,List.cons_append,List.nil_append]
    have hplace : 22+name.length+2+1 = before.length+0 := by
      rw [hbefore]
      simp only [List.length_cons,List.length_append,length_fixed,length_le16,List.length_nil]
      omega
    rw [hsplit,hplace,getLe16_append,getLe16_le16,Nat.mod_eq_of_lt (chainAnnounced_lt es)]
  have hlength : (summed (m.base 1 name (os::le16 (chainAnnounced es)))++
      (chainBytes es++(m.data++rest))).length =
      2+(22+name.length+3)+(chainBytes es++(m.data++rest)).length := by
    rw [List.length_append,length_summed,length_base,hmore]
  have hchain := lhaExtLoop_chain es (summed (m.base 1 name (os::le16 (chainAnnounced es))))
    (m.data++rest) {pos := 2+(22+name.length+3)} (by rw [length_summed,length_base,hmore])
  unfold lhaExtensions
  rw [hlevel,if_pos (by decide)]
  dsimp only
  rw [if_neg (by omega),if_neg (by decide),hannounced,hmore,hchain,hend,hshape]
  simp only [LhaShape.extensions,Nat.zero_add]

theorem seen_level2 {os : UInt8} {es : List LhaExtension} {pad : Bytes}
    (hshape : m.shape = .level2 os es pad) (rest : Bytes) : m.Seen (m.bytes++rest) := by
  obtain ⟨total,htotal⟩ : ∃ total, total = 26+(chainBytes es).length+pad.length := ⟨_,rfl⟩
  have hfits : total < 2^16 ∧ total%2^8 ≠ 0 := by
    have h := m.shape_fits
    rw [hshape] at h
    rw [htotal]
    exact h
  have hheader : m.header = le16 total++(m.fixed 2++(le16 m.crc++
      (os::(le16 (chainAnnounced es)++(chainBytes es++pad))))) := by
    unfold header
    rw [hshape,htotal]
  obtain ⟨hdr,hhdr⟩ : ∃ hdr, hdr = m.bytes++rest := ⟨_,rfl⟩
  have hfixed : hdr = UInt8.ofNat total::UInt8.ofNat (total/2^8)::(m.fixed 2++(le16 m.crc++
      (os::(le16 (chainAnnounced es)++(chainBytes es++(pad++(m.data++rest))))))) := by
    rw [hhdr,bytes,hheader]
    simp only [le16,List.append_assoc,List.cons_append,List.nil_append]
  have hlevel : lhaLevel hdr = 2 := by
    rw [hfixed]
    exact fixed_level m _ _ _ _
  have hlength : hdr.length = total+m.data.length+rest.length := by
    rw [hfixed]
    simp only [List.length_cons,List.length_append,length_fixed,length_le16]
    omega
  have hsize : getLe16 hdr 0 = total := by
    rw [hfixed]
    exact (getLe16_le16 total _).trans (Nat.mod_eq_of_lt hfits.1)
  have hzero : byte hdr 0 = total%2^8 := by
    rw [hfixed]
    exact UInt8.toNat_ofNat'
  have hlayout : lhaLayout hdr = {
      headerSize := total
      baseHeaderSize := 26
      crcOffset := 21
      extSizeOffset := 24
      nameLen := 0
      nameOffset := 0
      dataOffset := total } := by
    unfold lhaLayout
    rw [if_pos hlevel,hsize]
  have hend : m.chainEnd = 26+(chainBytes es).length := by
    rw [chainEnd,hheader,hshape]
    simp only [List.length_append,List.length_cons,length_fixed,length_le16,LhaShape.pad]
    omega
  rw [← hhdr]
  refine {
    long := by omega
    filled := by rw [hzero]; exact hfits.2
    level := by omega
    base := ?_
    size := by rw [hlayout]; dsimp only; omega
    checksum := ?_
    nameFits := .inl hlevel
    extensions := ?_
    method := by rw [hfixed]; exact fixed_method m _ _ _ _
    packed := by rw [hfixed]; exact fixed_packed m _ _ _ _
    chain := by rw [hlevel,hshape]; rfl
    original := by rw [hfixed]; exact fixed_original m _ _ _ _
    crcInside := by rw [hlayout]; dsimp only; omega
    crc := ?_
    name := by rw [hlayout,hshape]; rfl }
  · rw [hlayout,lhaBaseCut,hlevel]
    exact decide_eq_false (by dsimp only; omega)
  · unfold lhaHeaderChecksumValid
    rw [if_neg (by omega),if_pos (show byte hdr 20 = 2 from hlevel),hsize]
    exact decide_eq_true (by omega)
  · have hannounced : getLe16 hdr 24 = chainAnnounced es := by
      rw [hfixed]
      change getLe16 (le16 (chainAnnounced es)++(chainBytes es++(pad++(m.data++rest)))) 0 = _
      rw [getLe16_le16,Nat.mod_eq_of_lt (chainAnnounced_lt es)]
    have hchain := lhaExtLoop_chain es (UInt8.ofNat total::UInt8.ofNat (total/2^8)::(m.fixed 2++
      (le16 m.crc++(os::le16 (chainAnnounced es))))) (pad++(m.data++rest)) {pos := 26} rfl
    have hsplit : UInt8.ofNat total::UInt8.ofNat (total/2^8)::(m.fixed 2++
        (le16 m.crc++(os::le16 (chainAnnounced es))))++(chainBytes es++(pad++(m.data++rest))) =
        hdr := by
      rw [hfixed]
      simp only [List.append_assoc,List.cons_append]
    rw [hsplit] at hchain
    unfold lhaExtensions
    rw [hlevel,if_pos (by decide),hlayout]
    dsimp only
    rw [if_neg (by omega),if_pos rfl,hannounced,hchain,hend,hshape]
    simp only [LhaShape.extensions,Nat.zero_add]
  · rw [hlayout,hfixed]
    change getLe16 (le16 m.crc++(os::(le16 (chainAnnounced es)++(chainBytes es++(pad++
      (m.data++rest)))))) 0 = _
    rw [getLe16_le16,Nat.mod_eq_of_lt m.crc_lt]

/-- Every member is seen as it was laid out, whatever follows it. -/
theorem seen (m : LhaMember) (rest : Bytes) : m.Seen (m.bytes++rest) := by
  cases hshape : m.shape with
  | level0 name area => exact seen_level0 hshape rest
  | level1 name os es => exact seen_level1 hshape rest
  | level2 os es pad => exact seen_level2 hshape rest

/-- Only a pad lies between the chain and the data. -/
theorem chainEnd_pad (m : LhaMember) : m.chainEnd+m.shape.pad.length = m.header.length := by
  have hle : m.shape.pad.length ≤ m.header.length := by
    unfold header
    cases m.shape with
    | level0 name area => exact Nat.zero_le _
    | level1 name os es => exact Nat.zero_le _
    | level2 os es pad =>
      simp only [LhaShape.pad,List.length_append,List.length_cons]
      omega
  exact Nat.sub_add_cancel hle

end LhaMember

section

variable {pos : Nat} {tail : Bytes}

/-- Reading the laid out members from their start on finds each of them where it is, just when no
header is padded and every name can be held. At the first one for which that fails, either nothing
is read any more or its data is placed before its pad. -/
theorem lhaMembers_places (ms : List LhaMember) (before : Bytes)
    (htail : byte tail 0 = 0 ∨ tail.length < 24) :
    (∃ entries, lhaMembers (before++(ms.flatMap LhaMember.bytes++tail)) before.length =
        some entries ∧ entries.map ArchiveEntry.place = places before.length ms) ↔
      ∀ m ∈ ms, m.shape.pad = [] ∧ m.entryName.isSome := by
  induction ms generalizing before with
  | nil =>
    have hend : byte (before++tail) before.length = 0 ∨
        (before++tail).length-before.length < 24 := by
      rw [List.length_append,Nat.add_sub_cancel_left]
      exact htail.imp (fun h => (@byte_append_right before tail 0).trans h) id
    rw [List.flatMap_nil,List.nil_append,lhaMembers_end hend]
    simp [places]
  | cons m ms ih =>
    obtain ⟨rest,hrest⟩ : ∃ rest, rest = ms.flatMap LhaMember.bytes++tail := ⟨_,rfl⟩
    obtain ⟨data,hdata⟩ : ∃ data, data = before++(m.bytes++rest) := ⟨_,rfl⟩
    have hall : before++((m::ms).flatMap LhaMember.bytes++tail) = data := by
      rw [hdata,hrest,List.flatMap_cons,List.append_assoc]
    have hseen := m.seen rest
    have hpad := m.chainEnd_pad
    have hbytes : m.bytes.length = m.header.length+m.data.length := List.length_append
    have hlength : (m.bytes++rest).length = m.bytes.length+rest.length := List.length_append
    have hdrop : data.drop before.length = m.bytes++rest := by rw [hdata,List.drop_left]
    have havail : data.length-before.length = (m.bytes++rest).length := by
      rw [hdata,List.length_append,Nat.add_sub_cancel_left]
    have hopen : ¬(byte data before.length = 0 ∨ data.length-before.length < 24) := by
      have hbyte : byte data before.length = byte (m.bytes++rest) 0 := by
        rw [hdata]
        exact @byte_append_right before (m.bytes++rest) 0
      have hlong := hseen.long
      have hfilled := hseen.filled
      rw [hbyte,havail]
      omega
    have hparse := hseen.parse (show m.chainEnd+m.data.length ≤ (m.bytes++rest).length by omega)
    rw [← havail] at hparse
    rw [hall,List.forall_mem_cons,places]
    cases hname : m.entryName with
    | none =>
      rw [hname] at hparse
      have hbad := lhaMembers_bad hopen (by rw [hdrop,hparse]; exact fun _ h => nomatch h)
      simp [hbad]
    | some name =>
      rw [hname] at hparse
      have hok := lhaMembers_ok hopen (by rw [hdrop]; exact hparse)
      have hplace : ((m.readEntry name).at before.length).place =
          ⟨before.length+m.chainEnd,m.data.length,m.originalSize,m.crc⟩ := rfl
      rw [hok]
      by_cases hunpadded : m.shape.pad = []
      · have hend : m.chainEnd = m.header.length := by
          rw [hunpadded] at hpad
          exact hpad
        have hnext : lhaNext before.length (m.readEntry name) = (before++m.bytes).length := by
          rw [List.length_append,hbytes,← hend]
          exact Nat.add_assoc _ _ _
        have hrestOf : data = before++m.bytes++(ms.flatMap LhaMember.bytes++tail) := by
          rw [hdata,hrest,List.append_assoc]
        have hothers := ih (before++m.bytes)
        rw [← hrestOf] at hothers
        rw [hnext,← hothers,List.length_append]
        constructor
        · rintro ⟨entries,hentries,hplaces⟩
          obtain ⟨others,hsome,rfl⟩ := Option.map_eq_some_iff.mp hentries
          rw [List.map_cons,hplace,hend,List.cons.injEq] at hplaces
          exact ⟨⟨hunpadded,rfl⟩,others,hsome,hplaces.2⟩
        · rintro ⟨-,others,hsome,hplaces⟩
          refine ⟨_,by rw [hsome]; rfl,?_⟩
          rw [List.map_cons,hplace,hend,hplaces]
      · have hbefore : m.chainEnd ≠ m.header.length := by
          have hlong := List.length_pos_iff.mpr hunpadded
          omega
        constructor
        · rintro ⟨entries,hentries,hplaces⟩
          obtain ⟨others,-,rfl⟩ := Option.map_eq_some_iff.mp hentries
          rw [List.map_cons,hplace,List.cons.injEq,LhaPlace.mk.injEq] at hplaces
          exact absurd (Nat.add_left_cancel hplaces.1.1) hbefore
        · rintro ⟨⟨h,-⟩,-⟩
          exact absurd h hunpadded

theorem length_places (pos : Nat) (ms : List LhaMember) : (places pos ms).length = ms.length := by
  induction ms generalizing pos with
  | nil => rfl
  | cons m ms ih => rw [places,List.length_cons,List.length_cons,ih]

end

/-- A level-2 member whose header of 256 bytes its writer padded to 257 -/
def paddedMember : LhaMember where
  letter := 0x68
  digit := 0x30
  originalSize := 1
  stamp := 0
  attrs := 0x20
  crc := 0
  data := [0x61]
  shape := .level2 0x55 [⟨0x3f,List.replicate 227 0,by decide +kernel⟩] [0]
  letter_ok := .inl rfl
  originalSize_lt := by decide
  crc_lt := by decide
  shape_fits := by
    refine ⟨?_,?_⟩ <;> decide +kernel
  packed_lt := by decide

end ZZ9K.Archive
