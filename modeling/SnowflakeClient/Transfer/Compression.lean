import SnowflakeClient.StdString
import SnowflakeClient.Util.Platform

/-!
# Compression types

`FileCompressionType` (`cpp/FileCompressionType.cpp`), and how the metadata of a file get the
compression of the file (`initCompressionMetadata` of `cpp/FileMetadataInitializer.cpp`): it is
guessed from the content and the path of the file, or looked up by its name.

* `guessCompressionType_eq_iff`: the guess is the first type that the content or the extension
  shows, unless the path has no dot; without one it throws, if no type up to `BROTLI` was found
  before.
* `lookUpByName_exact_iff`: only the first 8 characters of a name are compared, the size of a
  pointer, so the names that begin as one of the two long ones do are taken for it.
-/

namespace Snowflake

open StdString CText

/-! ## The types -/

inductive FileCompressionType where
  | gzip | deflate | rawDeflate | bzip2 | zstd | brotli | lzip | lzma | lzo | xz | compress | orc
  | parquet | none
  deriving DecidableEq, Repr

namespace FileCompressionType

/-- The members of a type. -/
structure Members where
  fileExtension : List Char
  name : List Char
  /-- `m_magicNumbers`; the empty list is the null pointer. -/
  magicNumbers : List (List UInt8)
  magicBytes : Nat
  isSupported : Bool

def members : FileCompressionType → Members
  | gzip => ⟨".gz".toList, "gzip".toList, [[0x1f, 0x8b]], 2, true⟩
  | deflate =>
    ⟨".deflate".toList, "deflate".toList, [[0x78, 0x01], [0x78, 0x9c], [0x78, 0xda]], 2, true⟩
  | rawDeflate => ⟨".raw_deflate".toList, "raw_deflate".toList, [], 0, true⟩
  | bzip2 => ⟨".bz2".toList, "bzip2".toList, [[0x42, 0x5a]], 2, true⟩
  | zstd => ⟨".zst".toList, "zstd".toList, [[0x28, 0xb5, 0x2f, 0xfd]], 4, true⟩
  | brotli => ⟨".br".toList, "brotli".toList, [[0xce, 0xb2, 0xcf, 0x81]], 4, true⟩
  | lzip => ⟨".lz".toList, "lzip".toList, [], 0, false⟩
  | lzma => ⟨".lzma".toList, "lzma".toList, [], 0, false⟩
  | lzo => ⟨".lzo".toList, "lzop".toList, [], 0, false⟩
  | xz => ⟨".xz".toList, "xz".toList, [], 0, false⟩
  | compress => ⟨".Z".toList, "compress".toList, [], 0, false⟩
  | orc => ⟨".orc".toList, "orc".toList, [[0x4f, 0x52, 0x43]], 3, true⟩
  | parquet => ⟨".parquet".toList, "parquet".toList, [[0x50, 0x41, 0x52, 0x31]], 4, true⟩
  | none => ⟨[], "none".toList, [], 0, true⟩

/-- `types`. -/
def types : List FileCompressionType :=
  [gzip, deflate, rawDeflate, bzip2, zstd, brotli, lzip, lzma, lzo, xz, compress, orc, parquet]

/-- `MAX_MAGIC_BYTES`. -/
def maxMagicBytes : Nat := 4

/-- The buffer after the first bytes of a file are read into it. Its last byte is not read. -/
def header (content : List UInt8) : List UInt8 :=
  (content ++ List.replicate maxMagicBytes 0).take maxMagicBytes ++ [0]

/-- `strlen`. -/
def strlen (buffer : List UInt8) : Nat := (buffer.takeWhile (· ≠ 0)).length

/-- `matchMagicNumber`. -/
def matchMagicNumber (t : FileCompressionType) (header : List UInt8) : Bool :=
  t.members.magicNumbers.any fun magic =>
    decide (t.members.magicBytes ≤ strlen header) &&
      header.take t.members.magicBytes == magic.take t.members.magicBytes

/-- The loop of `guessCompressionType`. -/
def guessAmong (fileFullPath : List Char) (header : List UInt8) :
    List FileCompressionType → Except OutOfRange FileCompressionType
  | [] => .ok none
  | t :: ts =>
    if t.matchMagicNumber header then .ok t
    else if t = brotli then do
      let fileExt ← substrFrom fileFullPath (findLastOf fileFullPath '.')
      if cStr fileExt = t.members.fileExtension then .ok t else guessAmong fileFullPath header ts
    else guessAmong fileFullPath header ts

/-- `guessCompressionType` for a file with this content, which is empty if the file cannot be
read. -/
def guessCompressionType (fileFullPath : List Char) (content : List UInt8) :
    Except OutOfRange FileCompressionType := guessAmong fileFullPath (header content) types

/-- `lookUpByName`; the size of a pointer is 8. -/
def lookUpByName (name : List Char) : Option FileCompressionType :=
  types.find? fun t => strncmp name t.members.name 8 = 0

/-! ## The guess -/

/-- The content begins with a magic number of the type. -/
def HasMagic (content : List UInt8) (t : FileCompressionType) : Prop :=
  ∃ magic ∈ t.members.magicNumbers, magic <+: content

instance (content : List UInt8) (t : FileCompressionType) : Decidable (HasMagic content t) :=
  inferInstanceAs (Decidable (∃ magic ∈ _, _))

/-- The file is of the type, as far as its content or, for Brotli, its extension shows. -/
def Shows (path : List Char) (content : List UInt8) (t : FileCompressionType) : Prop :=
  HasMagic content t ∨ t = brotli ∧ ".br".toList <:+ path

instance (path : List Char) (content : List UInt8) (t : FileCompressionType) :
    Decidable (Shows path content t) := inferInstanceAs (Decidable (_ ∨ _))

/-- The first type that the file shows. -/
def firstShown (path : List Char) (content : List UInt8) : FileCompressionType :=
  (types.find? fun t => Shows path content t).getD none

theorem magicNumbers_wf (t : FileCompressionType) :
    ∀ magic ∈ t.members.magicNumbers,
      magic.length = t.members.magicBytes ∧ magic.length ≤ maxMagicBytes ∧ 0 ∉ magic := by
  cases t <;> decide

section Magic

variable {magic content : List UInt8}

/-- What has no zero in it is not in the zeros after the content. -/
theorem prefix_append_zeros (h : 0 ∉ magic) (k : Nat) :
    magic <+: content ++ List.replicate k 0 ↔ magic <+: content := by
  constructor
  · intro hpre
    rcases List.prefix_or_prefix_of_prefix hpre (List.prefix_append content _) with hle | hge
    · exact hle
    · obtain ⟨rest, rfl⟩ := hge
      rw [List.prefix_append_right_inj] at hpre
      have hrest : rest = [] := by
        rw [List.eq_nil_iff_forall_not_mem]
        intro b hb
        have hzero := List.eq_of_mem_replicate (hpre.subset hb)
        exact h (hzero ▸ List.mem_append_right _ hb)
      rw [hrest, List.append_nil]
  · intro hpre
    exact hpre.trans (List.prefix_append ..)

/-- The bytes of the header are compared as those of the content would be. -/
theorem header_begins_iff (hlen : magic.length ≤ maxMagicBytes) (hzero : 0 ∉ magic) :
    magic.length ≤ strlen (header content) ∧
      (header content).take magic.length = magic.take magic.length ↔ magic <+: content := by
  have hheader : (header content).take magic.length =
      (content ++ List.replicate maxMagicBytes 0).take magic.length := by
    unfold header
    rw [List.take_append_of_le_length (by simp; omega), List.take_take, min_eq_left hlen]
  rw [hheader, List.take_length, ← prefix_append_zeros hzero maxMagicBytes,
    List.prefix_iff_eq_take, eq_comm, and_iff_right_iff_imp]
  intro heq
  have hsplit : header content = magic ++ (header content).drop magic.length := by
    conv_lhs => rw [← List.take_append_drop magic.length (header content), hheader, ← heq]
  unfold strlen
  rw [hsplit, List.takeWhile_append_of_pos, List.length_append]
  · exact Nat.le_add_right ..
  · intro b hb
    have hne : b ≠ 0 := fun h => hzero (h ▸ hb)
    simpa using hne

end Magic

theorem matchMagicNumber_iff (t : FileCompressionType) (content : List UInt8) :
    t.matchMagicNumber (header content) = true ↔ HasMagic content t := by
  unfold matchMagicNumber HasMagic
  rw [List.any_eq_true]
  apply exists_congr
  intro magic
  rw [and_congr_right_iff]
  intro hmagic
  obtain ⟨hbytes, hlen, hzero⟩ := magicNumbers_wf t magic hmagic
  rw [← hbytes, Bool.and_eq_true, decide_eq_true_iff, beq_iff_eq]
  exact header_begins_iff hlen hzero

/-- The extension is what follows the last dot. -/
theorem eq_br_iff_suffix {a b : List Char} (hb : '.' ∉ b) :
    '.' :: b = ".br".toList ↔ ".br".toList <:+ a ++ '.' :: b := by
  constructor
  · intro h
    rw [← h]
    exact List.suffix_append ..
  · intro h
    rcases List.suffix_or_suffix_of_suffix h (List.suffix_append a _) with hle | hge
    · rcases List.suffix_cons_iff.1 hle with heq | hsuffix
      · exact heq.symm
      · exact absurd (hsuffix.subset (show '.' ∈ ".br".toList by decide)) hb
    · rcases List.suffix_cons_iff.1 hge with heq | hsuffix
      · exact heq
      · exact absurd (hsuffix.subset List.mem_cons_self) (by decide)

section Guess

variable {path : List Char} {content : List UInt8}

/-- The types whose magic numbers are tested before the extension is. -/
def testedFirst (ts : List FileCompressionType) : List FileCompressionType :=
  ts.takeWhile (· ≠ brotli) ++ [brotli]

theorem testedFirst_cons {t : FileCompressionType} (ht : t ≠ brotli)
    (ts : List FileCompressionType) : testedFirst (t :: ts) = t :: testedFirst ts := by
  rw [testedFirst, List.takeWhile_cons_of_pos (by simpa using ht), List.cons_append, testedFirst]

theorem testedFirst_brotli (ts : List FileCompressionType) :
    testedFirst (brotli :: ts) = [brotli] := rfl

section Step

variable {t : FileCompressionType} {ts : List FileCompressionType}

theorem guessAmong_magic (hmagic : HasMagic content t) :
    guessAmong path (header content) (t :: ts) = .ok t := by
  unfold guessAmong
  exact if_pos ((matchMagicNumber_iff ..).2 hmagic)

theorem guessAmong_other (hmagic : ¬ HasMagic content t) (ht : t ≠ brotli) :
    guessAmong path (header content) (t :: ts) = guessAmong path (header content) ts := by
  conv_lhs => unfold guessAmong
  rw [if_neg (mt (matchMagicNumber_iff ..).1 hmagic), if_neg ht]

/-- The extension is tested. -/
theorem guessAmong_extension (hmagic : ¬ HasMagic content brotli) (hnul : '\x00' ∉ path)
    (hdot : '.' ∈ path) :
    guessAmong path (header content) (brotli :: ts) =
      if ".br".toList <:+ path then .ok brotli else guessAmong path (header content) ts := by
  conv_lhs => unfold guessAmong
  obtain ⟨a, b, rfl, hb⟩ := exists_last hdot
  have hext : '\x00' ∉ '.' :: b := fun hmem => hnul (List.mem_append_right _ hmem)
  rw [if_neg (mt (matchMagicNumber_iff ..).1 hmagic), if_pos rfl, substrFrom_findLastOf hb]
  change (if cStr ('.' :: b) = ".br".toList then _ else _) = _
  rw [cStr_of_noNul hext]
  exact if_congr (eq_br_iff_suffix hb) rfl rfl

/-- There is no extension to test. -/
theorem guessAmong_noExtension (hmagic : ¬ HasMagic content brotli) (hdot : '.' ∉ path) :
    guessAmong path (header content) (brotli :: ts) = .error .outOfRange := by
  unfold guessAmong
  rw [if_neg (mt (matchMagicNumber_iff ..).1 hmagic), if_pos rfl, findLastOf, if_neg hdot]
  rfl

end Step

/-- The loop finds the first type that the file shows, if it has an extension to test or does not
come to testing it. -/
theorem guessAmong_eq (hnul : '\x00' ∉ path) (ts : List FileCompressionType)
    (h : '.' ∈ path ∨ (brotli ∈ ts → ∃ t ∈ testedFirst ts, HasMagic content t)) :
    guessAmong path (header content) ts =
      .ok ((ts.find? fun t => Shows path content t).getD none) := by
  induction ts with
  | nil => rfl
  | cons t ts ih =>
    by_cases hmagic : HasMagic content t
    · have hshows : Shows path content t := .inl hmagic
      rw [guessAmong_magic hmagic, List.find?_cons_of_pos (by simpa using hshows)]
      rfl
    by_cases ht : t = brotli
    · subst ht
      have hdot : '.' ∈ path := by
        refine h.resolve_right fun hfirst => ?_
        obtain ⟨t, ht, hshown⟩ := hfirst List.mem_cons_self
        rw [testedFirst_brotli, List.mem_singleton] at ht
        exact hmagic (ht ▸ hshown)
      have hshows : Shows path content brotli ↔ ".br".toList <:+ path :=
        (or_iff_right hmagic).trans (and_iff_right rfl)
      rw [guessAmong_extension hmagic hnul hdot]
      by_cases hbr : ".br".toList <:+ path
      · rw [if_pos hbr, List.find?_cons_of_pos (by simpa using hshows.2 hbr)]
        rfl
      · rw [if_neg hbr, ih (.inl hdot), List.find?_cons_of_neg (by simpa using mt hshows.1 hbr)]
    · have hshows : ¬ Shows path content t := by
        rintro (hshown | ⟨heq, -⟩)
        · exact hmagic hshown
        · exact ht heq
      rw [guessAmong_other hmagic ht, List.find?_cons_of_neg (by simpa using hshows)]
      apply ih
      refine h.imp_right fun hfirst hmem => ?_
      obtain ⟨t', ht', hshown⟩ := hfirst (List.mem_cons_of_mem _ hmem)
      rw [testedFirst_cons ht] at ht'
      rcases List.mem_cons.1 ht' with rfl | ht'
      · exact absurd hshown hmagic
      · exact ⟨t', ht', hshown⟩

/-- It throws when it comes to the extension of a path that has none. -/
theorem guessAmong_error (hdot : '.' ∉ path) (ts : List FileCompressionType)
    (hbrotli : brotli ∈ ts) (h : ∀ t ∈ testedFirst ts, ¬ HasMagic content t) :
    guessAmong path (header content) ts = .error .outOfRange := by
  induction ts with
  | nil => cases hbrotli
  | cons t ts ih =>
    by_cases ht : t = brotli
    · subst ht
      have hmagic := h brotli (by rw [testedFirst_brotli]; exact List.mem_singleton_self _)
      exact guessAmong_noExtension hmagic hdot
    · rw [testedFirst_cons ht] at h
      rw [guessAmong_other (h t List.mem_cons_self) ht]
      exact ih ((List.mem_cons.1 hbrotli).resolve_left (Ne.symm ht))
        fun t' ht' => h t' (List.mem_cons_of_mem _ ht')

end Guess

/-- The guess is the first type that the file shows, and is made without an exception, if and only
if the path has a dot somewhere or the content begins with a magic number that is tested before the
extension. -/
theorem guessCompressionType_eq_iff (path : Terminated) (content : List UInt8) :
    guessCompressionType path.chars content = .ok (firstShown path.chars content) ↔
      '.' ∈ path.chars ∨
        ∃ t ∈ [gzip, deflate, rawDeflate, bzip2, zstd, brotli], HasMagic content t := by
  have htypes : testedFirst types = [gzip, deflate, rawDeflate, bzip2, zstd, brotli] := rfl
  rw [← htypes]
  constructor
  · intro h
    by_contra hnot
    rw [not_or] at hnot
    have herror := guessAmong_error hnot.1 types (by decide)
      fun t ht hmagic => hnot.2 ⟨t, ht, hmagic⟩
    rw [guessCompressionType, herror] at h
    cases h
  · intro h
    exact guessAmong_eq path.noNul types (h.imp_right fun hfirst _ => hfirst)

/-- A text file without an extension. -/
theorem guessCompressionType_noExtension :
    guessCompressionType "/tmp/data".toList [0x61, 0x2c, 0x62] = .error .outOfRange ∧
      firstShown "/tmp/data".toList [0x61, 0x2c, 0x62] = none := by decide

/-! ## The metadata of a file -/

end FileCompressionType

open FileCompressionType (types lookUpByName guessCompressionType)

/-- Why there are no metadata. -/
inductive CompressionStop where
  /-- `std::out_of_range`. -/
  | outOfRange
  /-- `SnowflakeTransferException` with `COMPRESSION_NOT_SUPPORTED`. -/
  | compressionNotSupported (name : List Char)
  /-- `throw` without an exception: `std::terminate`. -/
  | terminate
  deriving DecidableEq, Repr

structure CompressionMetadata where
  sourceCompression : FileCompressionType
  targetCompression : FileCompressionType
  requireCompress : Bool
  destFileName : List Char
  deriving DecidableEq, Repr

/-- The type of the file; `content` is that of the file `srcFileName`. -/
def findSourceCompression (sourceCompression srcFileName : List Char) (content : List UInt8) :
    Except CompressionStop FileCompressionType :=
  if sfStrncasecmp sourceCompression "AUTO_DETECT".toList 12 = 0 ∨
      sfStrncasecmp sourceCompression "AUTO".toList 5 = 0 then
    (guessCompressionType srcFileName content).mapError fun _ => .outOfRange
  else if sfStrncasecmp sourceCompression "NONE".toList 5 = 0 then .ok .none
  else
    match lookUpByName sourceCompression with
    | none => .error (.compressionNotSupported sourceCompression)
    | some t => .ok t

/-- `initCompressionMetadata`. -/
def initCompressionMetadata (sourceCompression : List Char) (autoCompress : Bool)
    (srcFileName destFileName : List Char) (content : List UInt8) :
    Except CompressionStop CompressionMetadata := do
  let source ← findSourceCompression sourceCompression srcFileName content
  if source = .none then
    let target := if autoCompress then FileCompressionType.gzip else .none
    .ok {
      sourceCompression := source
      targetCompression := target
      requireCompress := autoCompress
      destFileName :=
        if autoCompress then destFileName ++ target.members.fileExtension else destFileName }
  else if !source.members.isSupported then .error .terminate
  else
    .ok {
      sourceCompression := source
      targetCompression := source
      requireCompress := false
      destFileName }

/-- A value of `SOURCE_COMPRESSION` that is neither a keyword nor the name of a type. -/
def UnknownCompression (name : List Char) : Prop :=
  name.map Char.toLower ∉ ["auto_detect".toList, "auto".toList, "none".toList] ∧
    ∀ t ∈ types, name ≠ t.members.name

/-- The lookup of a name is exact, and a value that is unknown is rejected. -/
structure LooksUpExactly (name : List Char) : Prop where
  some_iff : ∀ t ∈ types, lookUpByName name = some t ↔ name = t.members.name
  unique : ∀ t ∈ types, ∀ t' ∈ types, name = t.members.name → name = t'.members.name → t = t'
  none_iff : lookUpByName name = none ↔ ∀ t ∈ types, name ≠ t.members.name
  rejects : UnknownCompression name → ∀ autoCompress srcFileName destFileName content,
    initCompressionMetadata name autoCompress srcFileName destFileName content =
      .error (.compressionNotSupported name)

namespace FileCompressionType

/-- The types are told apart by the part of the name that is compared. -/
theorem take_name_inj : ∀ t ∈ types, ∀ t' ∈ types,
    t.members.name.take 8 = t'.members.name.take 8 → t = t' := by decide

theorem nul_notMem_name : ∀ t ∈ types, '\x00' ∉ t.members.name := by decide

theorem long_name : ∀ t ∈ types, ¬ t.members.name.length < 8 → t = compress ∨ t = rawDeflate := by
  decide

/-- The name is as one of the types' in the part that is compared only if it is that name. -/
def Unambiguous (name : List Char) : Prop :=
  ∀ t ∈ types, name.take 8 = t.members.name.take 8 → name = t.members.name

/-- Only two names are not compared to their end. -/
theorem unambiguous_iff (name : List Char) :
    Unambiguous name ↔
      ("compress".toList <+: name → name = "compress".toList) ∧
        ("raw_defl".toList <+: name → name = "raw_deflate".toList) := by
  constructor
  · intro h
    constructor
    · intro hpre
      exact h compress (by decide) (List.prefix_iff_eq_take.1 hpre).symm
    · intro hpre
      exact h rawDeflate (by decide) (List.prefix_iff_eq_take.1 hpre).symm
  · rintro ⟨hcompress, hraw⟩ t ht htake
    by_cases hlong : t.members.name.length < 8
    · rw [List.take_of_length_le hlong.le] at htake
      have hlen := congrArg List.length htake
      rw [List.length_take] at hlen
      rwa [List.take_of_length_le (by omega)] at htake
    · rcases long_name t ht hlong with rfl | rfl
      · exact hcompress (List.prefix_iff_eq_take.2 htake.symm)
      · exact hraw (List.prefix_iff_eq_take.2 htake.symm)

section Lookup

variable {name : List Char}

theorem lookUpByName_eq_none_iff (hnul : '\x00' ∉ name) :
    lookUpByName name = Option.none ↔ ∀ t ∈ types, name.take 8 ≠ t.members.name.take 8 := by
  rw [lookUpByName, List.find?_eq_none]
  apply forall₂_congr
  intro t ht
  rw [decide_eq_true_iff, strncmp_eq_zero_iff hnul (nul_notMem_name t ht)]

theorem lookUpByName_eq_some_iff (hnul : '\x00' ∉ name) (t : FileCompressionType) :
    lookUpByName name = some t ↔ t ∈ types ∧ name.take 8 = t.members.name.take 8 := by
  have hfound : ∀ {t}, lookUpByName name = some t →
      t ∈ types ∧ name.take 8 = t.members.name.take 8 := by
    intro t h
    have hmem : t ∈ types := List.mem_of_find?_eq_some h
    have heq := List.find?_some h
    rw [decide_eq_true_iff, strncmp_eq_zero_iff hnul (nul_notMem_name t hmem)] at heq
    exact ⟨hmem, heq⟩
  constructor
  · exact hfound
  · rintro ⟨hmem, heq⟩
    cases h : lookUpByName name with
    | none => exact absurd heq ((lookUpByName_eq_none_iff hnul).1 h t hmem)
    | some t' =>
      obtain ⟨hmem', heq'⟩ := hfound h
      rw [take_name_inj t' hmem' t hmem (heq'.symm.trans heq)]

end Lookup

end FileCompressionType

/-- No keyword is compared beyond its end. -/
theorem sfStrncasecmp_keyword {name keyword : List Char} (hnul : '\x00' ∉ name)
    (hkeyword : '\x00' ∉ keyword) :
    sfStrncasecmp name keyword (keyword.length + 1) = 0 ↔
      name.map Char.toLower = keyword.map Char.toLower := by
  rw [sfStrncasecmp_eq_zero_iff hnul hkeyword, List.take_of_length_le (Nat.le_succ keyword.length)]
  constructor
  · intro h
    have hlen := congrArg List.length h
    rw [List.length_map, List.length_map, List.length_take] at hlen
    rwa [List.take_of_length_le (by omega)] at h
  · intro h
    have hlen := congrArg List.length h
    rw [List.length_map, List.length_map] at hlen
    rwa [List.take_of_length_le (by omega)]

/-- An unknown value is rejected if the lookup does not find it. -/
theorem rejects_of_unknown {name : List Char} (hnul : '\x00' ∉ name)
    (hnone : lookUpByName name = none) (hunknown : UnknownCompression name) (autoCompress : Bool)
    (srcFileName destFileName : List Char) (content : List UInt8) :
    initCompressionMetadata name autoCompress srcFileName destFileName content =
      .error (.compressionNotSupported name) := by
  have hkeyword : ∀ keyword : List Char, '\x00' ∉ keyword →
      keyword.map Char.toLower ∈ ["auto_detect".toList, "auto".toList, "none".toList] →
        sfStrncasecmp name keyword (keyword.length + 1) ≠ 0 := by
    intro keyword hkeyword hmem h
    rw [sfStrncasecmp_keyword hnul hkeyword] at h
    exact hunknown.1 (h ▸ hmem)
  have hdetect : sfStrncasecmp name "AUTO_DETECT".toList 12 ≠ 0 :=
    hkeyword "AUTO_DETECT".toList (by decide) (by decide)
  have hauto : sfStrncasecmp name "AUTO".toList 5 ≠ 0 :=
    hkeyword "AUTO".toList (by decide) (by decide)
  have hkeep : sfStrncasecmp name "NONE".toList 5 ≠ 0 :=
    hkeyword "NONE".toList (by decide) (by decide)
  have hsource : findSourceCompression name srcFileName content =
      .error (.compressionNotSupported name) := by
    unfold findSourceCompression
    rw [if_neg (not_or.2 ⟨hdetect, hauto⟩), if_neg hkeep, hnone]
  rw [initCompressionMetadata, hsource]
  rfl

/-- The lookup is exact for every name but those that begin as `compress` or `raw_deflate` do and go
on otherwise. -/
theorem lookUpByName_exact_iff (name : Terminated) :
    LooksUpExactly name.chars ↔
      ("compress".toList <+: name.chars → name.chars = "compress".toList) ∧
        ("raw_defl".toList <+: name.chars → name.chars = "raw_deflate".toList) := by
  rw [← FileCompressionType.unambiguous_iff]
  constructor
  · intro h t ht htake
    have hsome := (FileCompressionType.lookUpByName_eq_some_iff name.noNul t).2 ⟨ht, htake⟩
    exact (h.some_iff t ht).1 hsome
  · intro h
    have hmatch : ∀ t ∈ types,
        name.chars.take 8 = t.members.name.take 8 ↔ name.chars = t.members.name :=
      fun t ht => ⟨h t ht, fun heq => by rw [heq]⟩
    have hnone : lookUpByName name.chars = none ↔ ∀ t ∈ types, name.chars ≠ t.members.name := by
      rw [FileCompressionType.lookUpByName_eq_none_iff name.noNul]
      exact forall₂_congr fun t ht => not_congr (hmatch t ht)
    constructor
    · intro t ht
      rw [FileCompressionType.lookUpByName_eq_some_iff name.noNul, hmatch t ht, and_iff_right ht]
    · intro t ht t' ht' heq heq'
      exact FileCompressionType.take_name_inj t ht t' ht' (by rw [← heq, heq'])
    · exact hnone
    · intro hunknown
      exact rejects_of_unknown name.noNul (hnone.2 hunknown.2) hunknown

/-- An unknown name that is taken for `raw_deflate`, and one that ends the process. -/
theorem lookUpByName_misread :
    UnknownCompression "raw_deflation".toList ∧
      lookUpByName "raw_deflation".toList = some .rawDeflate ∧
      initCompressionMetadata "raw_deflation".toList true "a".toList "a".toList [] =
        .ok ⟨.rawDeflate, .rawDeflate, false, "a".toList⟩ ∧
      UnknownCompression "compressed".toList ∧
      initCompressionMetadata "compressed".toList true "a".toList "a".toList [] =
        .error .terminate := by
  unfold UnknownCompression
  decide

end Snowflake
