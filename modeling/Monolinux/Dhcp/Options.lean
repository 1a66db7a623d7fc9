import Monolinux.Dhcp.Packet

/-!
# DHCP options

An option area is a sequence of options and PADs, END, and any bytes behind it.
`unpack_all_options` has a result exactly for the option areas without PADs whose options
have data and whose known options have the length of their type
(`unpackAllOptions_eq_some_iff`), and then it is the last value of each option.

`fread` reads no element of no bytes, so an option without data is an error.  A PAD is
taken for an option, and the byte behind it for its length (`unpackAllOptions_pad`):

  without PADs, options are decoded if all have data, and else not      (`options_decoded`)
-/

namespace Monolinux

structure Opt where
  code : UInt8
  data : List UInt8

namespace Opt

def bytes (o : Opt) : List UInt8 := o.code :: UInt8.ofNat o.data.length :: o.data

/-- The length that the type of a known option requires. -/
def LengthOk (o : Opt) : Prop :=
  match o.code with
  | 53 => o.data.length = 1
  | 1 | 3 | 51 | 54 | 58 | 59 => o.data.length = 4
  | 6 => 4 ≤ o.data.length
  | _ => True

/-- An option that fits, with a code that is neither PAD nor END. -/
structure WellFormed (o : Opt) : Prop where
  ne_pad : o.code ≠ 0
  ne_end : o.code ≠ 255
  length : o.data.length ≤ 255
  lengthOk : o.LengthOk

end Opt

def encodeOpts (opts : List Opt) : List UInt8 := opts.flatMap Opt.bytes

/-- What is in an option area. -/
inductive OptItem
  | pad
  | opt (o : Opt)

def OptItem.bytes : OptItem → List UInt8
  | pad => [0]
  | opt o => o.bytes

def OptItem.opt? : OptItem → Option Opt
  | pad => none
  | opt o => some o

/-- The options in an option area. -/
def optsOf (items : List OptItem) : List Opt := items.filterMap OptItem.opt?

def encodeItems (items : List OptItem) : List UInt8 := items.flatMap OptItem.bytes

/-- The data of the last option with the code. -/
def lastOf (code : UInt8) (opts : List Opt) : Option (List UInt8) :=
  ((opts.filter fun o => o.code = code).getLast?).map Opt.data

/-- A time, most significant byte first. -/
def timeOf (data : List UInt8) : UInt32 := UInt32.ofNat (bigEndian data)

section
variable [Host]

/-- The address that has these bytes in memory. -/
def addressOf (data : List UInt8) : InAddr :=
  UInt32.ofNat (bigEndian (if Host.littleEndian then data.reverse else data))

/-- Every known option has the value of its last occurrence. -/
def decodedOpts (opts : List Opt) : Options where
  messageType := (lastOf 53 opts).bind List.head?
  subnetMask := (lastOf 1 opts).map addressOf
  gateway := (lastOf 3 opts).map addressOf
  -- the first of the servers
  dns := (lastOf 6 opts).map fun data => addressOf (data.take 4)
  leaseTime := (lastOf 51 opts).map timeOf
  renewalTime := (lastOf 58 opts).map timeOf
  rebindingTime := (lastOf 59 opts).map timeOf
  serverIpAddress := (lastOf 54 opts).map addressOf

/-! ## One option -/

omit [Host] in
theorem mem_of_lastOf {code : UInt8} {opts : List Opt} {data : List UInt8} (h : lastOf code opts = some data) :
    ⟨code, data⟩ ∈ opts := by
  obtain ⟨⟨code', _⟩, ho, rfl⟩ := Option.map_eq_some_iff.mp h
  have hmem := List.mem_filter.mp (List.mem_of_getLast? ho)
  obtain rfl : code' = code := of_decide_eq_true hmem.2
  exact hmem.1

omit [Host] in
theorem lastOf_append (code : UInt8) (opts : List Opt) (o : Opt) :
    lastOf code (opts ++ [o]) = if o.code = code then some o.data else lastOf code opts := by
  unfold lastOf
  by_cases h : o.code = code
  · rw [if_pos h, List.filter_append]
    simp [h]
  · rw [if_neg h, List.filter_append]
    simp [h]

theorem unpackOptionInAddr_eq {data : List UInt8} (h : data.length = 4) :
    unpackOptionInAddr data = some (addressOf data) := by
  match data, h with
  | [b0, b1, b2, b3], _ =>
    refine congrArg some ?_
    unfold ntohl addressOf
    split
    · rw [swap32_word32]
      exact word32_eq_ofNat b3 b2 b1 b0
    · exact word32_eq_ofNat b0 b1 b2 b3

omit [Host] in
theorem unpackOptionU32_eq {data : List UInt8} (h : data.length = 4) : unpackOptionU32 data = some (timeOf data) := by
  match data, h with
  | [b0, b1, b2, b3], _ => exact congrArg some (word32_eq_ofNat b0 b1 b2 b3)

theorem unpackOption_spec (opts : List Opt) (o : Opt) (h : o.LengthOk) :
    unpackOption (decodedOpts opts) o.code o.data = some (decodedOpts (opts ++ [o])) := by
  obtain ⟨code, data⟩ := o
  unfold decodedOpts
  simp only [lastOf_append]
  unfold Opt.LengthOk at h
  dsimp only at h ⊢
  unfold unpackOption
  split
  · simp [unpackOptionInAddr_eq h]
  · simp [unpackOptionInAddr_eq h]
  · have hlen : (data.take 4).length = 4 := by
      rw [List.length_take]
      exact Nat.min_eq_left h
    simp [unpackOptionInAddr_eq hlen]
  · obtain ⟨b, rfl⟩ := List.length_eq_one_iff.mp h
    simp [unpackOptionU8]
  · simp [unpackOptionU32_eq h]
  · simp [unpackOptionU32_eq h]
  · simp [unpackOptionU32_eq h]
  · simp [unpackOptionInAddr_eq h]
  · next h1 h3 h6 h53 h51 h58 h59 h54 =>
    simp [if_neg h1, if_neg h3, if_neg h6, if_neg h53, if_neg h51, if_neg h58, if_neg h59, if_neg h54]

theorem length_of_unpackOptionInAddr {data : List UInt8} {value : InAddr} (h : unpackOptionInAddr data = some value) :
    data.length = 4 := by
  unfold unpackOptionInAddr at h
  split at h
  · rfl
  · cases h

omit [Host] in
theorem length_of_unpackOptionU32 {data : List UInt8} {value : UInt32} (h : unpackOptionU32 data = some value) :
    data.length = 4 := by
  unfold unpackOptionU32 at h
  split at h
  · rfl
  · cases h

omit [Host] in
theorem length_of_unpackOptionU8 {data : List UInt8} {value : UInt8} (h : unpackOptionU8 data = some value) :
    data.length = 1 := by
  unfold unpackOptionU8 at h
  split at h
  · rfl
  · cases h

theorem lengthOk_of_unpackOption {options options' : Options} {o : Opt}
    (h : unpackOption options o.code o.data = some options') : o.LengthOk := by
  obtain ⟨code, data⟩ := o
  unfold unpackOption at h
  dsimp only at h
  unfold Opt.LengthOk
  dsimp only
  split at h
  · obtain ⟨value, hv, -⟩ := Option.map_eq_some_iff.mp h
    exact length_of_unpackOptionInAddr hv
  · obtain ⟨value, hv, -⟩ := Option.map_eq_some_iff.mp h
    exact length_of_unpackOptionInAddr hv
  · obtain ⟨value, hv, -⟩ := Option.map_eq_some_iff.mp h
    have := length_of_unpackOptionInAddr hv
    rw [List.length_take] at this
    show 4 ≤ data.length
    omega
  · obtain ⟨value, hv, -⟩ := Option.map_eq_some_iff.mp h
    exact length_of_unpackOptionU8 hv
  · obtain ⟨value, hv, -⟩ := Option.map_eq_some_iff.mp h
    exact length_of_unpackOptionU32 hv
  · obtain ⟨value, hv, -⟩ := Option.map_eq_some_iff.mp h
    exact length_of_unpackOptionU32 hv
  · obtain ⟨value, hv, -⟩ := Option.map_eq_some_iff.mp h
    exact length_of_unpackOptionU32 hv
  · obtain ⟨value, hv, -⟩ := Option.map_eq_some_iff.mp h
    exact length_of_unpackOptionInAddr hv
  · next h1 h3 h6 h53 h51 h58 h59 h54 =>
    split <;> trivial

/-! ## Option areas -/

/-- What an iteration of the loop does with an option. -/
theorem unpackAllOptionsLoop_cons (fuel : ℕ) (options : Options) {o : Opt} (hend : o.code ≠ 255)
    (hlen : o.data.length ≤ 255) (rest : List UInt8) :
    unpackAllOptionsLoop (fuel + 1) options (o.bytes ++ rest) =
      if o.data = [] then some none
      else
        match unpackOption options o.code o.data with
        | none => some none
        | some options => unpackAllOptionsLoop fuel options rest := by
  have hnat : (UInt8.ofNat o.data.length).toNat = o.data.length := by
    rw [UInt8.toNat_ofNat', Nat.mod_eq_of_lt (by omega)]
  unfold Opt.bytes
  simp only [List.cons_append, unpackAllOptionsLoop, if_neg hend]
  by_cases hd : o.data = []
  · rw [if_pos hd, if_pos]
    left
    rw [hd]
    rfl
  · have hpos := List.length_pos_iff.mpr hd
    have hz : UInt8.ofNat o.data.length ≠ 0 := by
      intro hz
      rw [hz] at hnat
      have : (0 : UInt8).toNat = 0 := rfl
      omega
    have hlt : ¬ (o.data ++ rest).length < (UInt8.ofNat o.data.length).toNat := by
      rw [hnat, List.length_append]
      omega
    have htake : (o.data ++ rest).take (UInt8.ofNat o.data.length).toNat = o.data := by
      rw [hnat, List.take_left]
    have hdrop : (o.data ++ rest).drop (UInt8.ofNat o.data.length).toNat = rest := by
      rw [hnat, List.drop_left]
    rw [if_neg hd, if_neg (not_or.mpr ⟨hz, hlt⟩)]
    exact congrArg₂ (fun data rest => match unpackOption options o.code data with
      | none => some none
      | some options => unpackAllOptionsLoop fuel options rest) htake hdrop

/-- The options that are decoded: with data, and with the length of their type. -/
structure Opt.Accepted (o : Opt) : Prop where
  ne_end : o.code ≠ 255
  length : o.data.length ≤ 255
  nonempty : o.data ≠ []
  lengthOk : o.LengthOk

/-- **Accepted options are decoded**, each over those before it. -/
theorem unpackAllOptionsLoop_accepted {fuel : ℕ} {opts before : List Opt} (h : ∀ o ∈ opts, o.Accepted)
    (hfuel : opts.length ≤ fuel) (rest : List UInt8) :
    unpackAllOptionsLoop fuel (decodedOpts before) (encodeOpts opts ++ rest) =
      unpackAllOptionsLoop (fuel - opts.length) (decodedOpts (before ++ opts)) rest := by
  induction opts generalizing fuel before with
  | nil => rw [List.append_nil]; rfl
  | cons o opts ih =>
    have ho := h o (List.mem_cons_self ..)
    rw [List.length_cons] at hfuel
    obtain ⟨fuel, rfl⟩ : ∃ k, fuel = k + 1 := ⟨fuel - 1, by omega⟩
    have henc : encodeOpts (o :: opts) ++ rest = o.bytes ++ (encodeOpts opts ++ rest) := by
      rw [encodeOpts, List.flatMap_cons, List.append_assoc]
      rfl
    rw [henc, unpackAllOptionsLoop_cons fuel _ ho.ne_end ho.length, if_neg ho.nonempty, unpackOption_spec before o ho.lengthOk]
    dsimp only
    rw [ih (fun o' ho' => h o' (List.mem_cons_of_mem _ ho')) (by omega), List.append_assoc, List.singleton_append,
      List.length_cons, Nat.add_sub_add_right]

/-- An option that is read is an accepted one. -/
theorem accepted_of_unpackOption {before : List Opt} {option length : UInt8} {stream : List UInt8} {options : Options}
    (hend : option ≠ 255) (hz : length ≠ 0) (hlt : ¬stream.length < length.toNat)
    (hu : unpackOption (decodedOpts before) option (stream.take length.toNat) = some options) :
    ∃ o : Opt, o.Accepted ∧ o.bytes = option :: length :: stream.take length.toNat ∧
      options = decodedOpts (before ++ [o]) := by
  have hlen : (stream.take length.toNat).length = length.toNat := by
    rw [List.length_take]
    omega
  have hl := length.toNat_lt
  let o : Opt := ⟨option, stream.take length.toNat⟩
  have hlok : o.LengthOk := lengthOk_of_unpackOption (o := o) hu
  have hspec := unpackOption_spec before o hlok
  rw [show o.code = option from rfl, show o.data = stream.take length.toNat from rfl, hu] at hspec
  refine ⟨o, ⟨hend, ?_, ?_, hlok⟩, ?_, Option.some_inj.mp hspec⟩
  · show (stream.take length.toNat).length ≤ 255
    omega
  · intro hnil
    have hnone : (stream.take length.toNat).length = 0 := by
      rw [show stream.take length.toNat = [] from hnil]
      rfl
    exact hz (UInt8.toNat_inj.mp (by rw [← hlen, hnone]; rfl))
  · show option :: UInt8.ofNat (stream.take length.toNat).length :: stream.take length.toNat = _
    rw [hlen, UInt8.ofNat_toNat]

/-- A result of the loop comes from accepted options and END. -/
theorem accepted_of_unpackAllOptionsLoop {fuel : ℕ} {before : List Opt} {stream : List UInt8} {options : Options}
    (h : unpackAllOptionsLoop fuel (decodedOpts before) stream = some (some options)) :
    ∃ opts trailing, stream = encodeOpts opts ++ 255 :: trailing ∧ (∀ o ∈ opts, o.Accepted) ∧
      options = decodedOpts (before ++ opts) := by
  induction fuel generalizing before stream with
  | zero => cases h
  | succ fuel ih =>
    cases stream with
    | nil => cases h
    | cons option stream =>
      by_cases hend : option = 255
      · subst hend
        refine ⟨[], stream, rfl, nofun, ?_⟩
        simp only [unpackAllOptionsLoop, if_true] at h
        rw [List.append_nil]
        exact (Option.some_inj.mp (Option.some_inj.mp h)).symm
      · simp only [unpackAllOptionsLoop, if_neg hend] at h
        cases stream with
        | nil => cases h
        | cons length stream =>
          by_cases hread : length = 0 ∨ stream.length < length.toNat
          · simp only [if_pos hread] at h
            cases h
          · simp only [if_neg hread] at h
            obtain ⟨hz, hlt⟩ := not_or.mp hread
            cases hu : unpackOption (decodedOpts before) option (stream.take length.toNat) with
            | none =>
              rw [hu] at h
              cases h
            | some options' =>
              obtain ⟨o, ho, hbytes, hoptions'⟩ := accepted_of_unpackOption hend hz hlt hu
              rw [hu, hoptions'] at h
              obtain ⟨opts, trailing, hstream, hacc, hopts⟩ := ih h
              refine ⟨o :: opts, trailing, ?_, List.forall_mem_cons.mpr ⟨ho, hacc⟩, ?_⟩
              · rw [encodeOpts, List.flatMap_cons, hbytes, List.append_assoc]
                show _ = option :: length :: (stream.take length.toNat ++ (encodeOpts opts ++ 255 :: trailing))
                rw [← hstream, List.take_append_drop]
              · rw [hopts, List.append_assoc, List.singleton_append]

omit [Host] in
theorem length_le_encodeOpts (opts : List Opt) : opts.length ≤ (encodeOpts opts).length := by
  induction opts with
  | nil => exact le_rfl
  | cons o opts ih =>
    have hpos : 0 < o.bytes.length := Nat.succ_pos _
    rw [encodeOpts, List.flatMap_cons, List.length_append, List.length_cons]
    unfold encodeOpts at ih
    omega

/-- Accepted options are decoded, whatever comes behind them. -/
theorem unpackAllOptions_accepted {opts : List Opt} (h : ∀ o ∈ opts, o.Accepted) (rest : List UInt8) :
    ∃ fuel, rest.length < fuel ∧
      unpackAllOptions (encodeOpts opts ++ rest) = unpackAllOptionsLoop fuel (decodedOpts opts) rest := by
  have hlen := length_le_encodeOpts opts
  refine ⟨(encodeOpts opts ++ rest).length + 1 - opts.length, ?_, ?_⟩
  · rw [List.length_append]
    omega
  · show unpackAllOptionsLoop _ (decodedOpts []) (encodeOpts opts ++ rest) = _
    refine unpackAllOptionsLoop_accepted h ?_ rest
    rw [List.length_append]
    omega

/-- **`unpack_all_options`** has a result exactly for sequences of accepted options and END. -/
theorem unpackAllOptions_eq_some_iff (stream : List UInt8) (options : Options) :
    unpackAllOptions stream = some (some options) ↔
      ∃ opts trailing, stream = encodeOpts opts ++ 255 :: trailing ∧ (∀ o ∈ opts, o.Accepted) ∧
        options = decodedOpts opts := by
  constructor
  · intro h
    have hloop : unpackAllOptionsLoop (stream.length + 1) (decodedOpts []) stream = some (some options) := h
    obtain ⟨opts, trailing, hstream, hacc, hopts⟩ := accepted_of_unpackAllOptionsLoop hloop
    exact ⟨opts, trailing, hstream, hacc, hopts⟩
  · rintro ⟨opts, trailing, rfl, hacc, rfl⟩
    obtain ⟨fuel, hfuel, hu⟩ := unpackAllOptions_accepted hacc (255 :: trailing)
    obtain ⟨fuel, rfl⟩ : ∃ k, fuel = k + 1 := ⟨fuel - 1, by omega⟩
    rw [hu]
    rfl

/-! ## Options without data, and PADs -/

/-- An option without data ends the decoding with -1. -/
theorem unpackAllOptions_empty {opts : List Opt} (h : ∀ o ∈ opts, o.Accepted) {code : UInt8} (hend : code ≠ 255)
    (rest : List UInt8) : unpackAllOptions (encodeOpts opts ++ ((⟨code, []⟩ : Opt).bytes ++ rest)) = some none := by
  obtain ⟨fuel, hfuel, hu⟩ := unpackAllOptions_accepted h ((⟨code, []⟩ : Opt).bytes ++ rest)
  obtain ⟨fuel, rfl⟩ : ∃ k, fuel = k + 1 := ⟨fuel - 1, by omega⟩
  rw [hu, unpackAllOptionsLoop_cons fuel _ hend (Nat.zero_le _), if_pos rfl]

omit [Host] in
theorem encodeOpts_append (opts opts' : List Opt) : encodeOpts (opts ++ opts') = encodeOpts opts ++ encodeOpts opts' :=
  List.flatMap_append

/-- The first option without data ends the decoding. -/
theorem unpackAllOptions_of_empty {before opts : List Opt} (hbefore : ∀ o ∈ before, o.Accepted)
    (hwf : ∀ o ∈ opts, o.WellFormed) (h : ∃ o ∈ opts, o.data = []) (rest : List UInt8) :
    unpackAllOptions (encodeOpts (before ++ opts) ++ rest) = some none := by
  induction opts generalizing before with
  | nil =>
    obtain ⟨o, ho, -⟩ := h
    exact absurd ho List.not_mem_nil
  | cons o opts ih =>
    have ho := hwf o (List.mem_cons_self ..)
    by_cases hd : o.data = []
    · obtain ⟨code, data⟩ := o
      obtain rfl : data = [] := hd
      rw [encodeOpts_append, encodeOpts, encodeOpts, List.flatMap_cons, List.append_assoc, List.append_assoc]
      exact unpackAllOptions_empty hbefore ho.ne_end _
    · rw [List.append_cons]
      refine ih (fun o' ho' => ?_) (fun o' ho' => hwf o' (List.mem_cons_of_mem _ ho')) ?_
      · rcases List.mem_append.mp ho' with ho' | ho'
        · exact hbefore o' ho'
        · obtain rfl := List.mem_singleton.mp ho'
          exact ⟨ho.ne_end, ho.length, hd, ho.lengthOk⟩
      · obtain ⟨o', ho', hd'⟩ := h
        rcases List.mem_cons.mp ho' with rfl | ho'
        · exact absurd hd' hd
        · exact ⟨o', ho', hd'⟩

/-- A PAD is taken for an option with the length in the byte behind it, and so skips that many bytes. -/
theorem unpackAllOptions_pad {opts : List Opt} (h : ∀ o ∈ opts, o.Accepted) (length : UInt8) (rest : List UInt8) :
    ∃ fuel, rest.length < fuel ∧
      unpackAllOptions (encodeOpts opts ++ 0 :: length :: rest) =
        if length = 0 ∨ rest.length < length.toNat then some none
        else unpackAllOptionsLoop fuel (decodedOpts opts) (rest.drop length.toNat) := by
  obtain ⟨fuel, hfuel, hu⟩ := unpackAllOptions_accepted h (0 :: length :: rest)
  obtain ⟨fuel, rfl⟩ : ∃ k, fuel = k + 1 := ⟨fuel - 1, by omega⟩
  refine ⟨fuel, ?_, ?_⟩
  · simp only [List.length_cons] at hfuel
    omega
  · rw [hu]
    rfl

omit [Host] in
theorem encodeItems_opts (opts : List Opt) : encodeItems (opts.map .opt) = encodeOpts opts := by
  unfold encodeItems encodeOpts
  rw [List.flatMap_map]
  rfl

omit [Host] in
theorem eq_map_of_no_pad {items : List OptItem} (h : OptItem.pad ∉ items) : items = (optsOf items).map .opt := by
  induction items with
  | nil => rfl
  | cons item items ih =>
    obtain ⟨hne, hmem⟩ := not_or.mp (mt List.mem_cons.mpr h)
    cases item with
    | pad => exact absurd rfl hne
    | opt o => exact congrArg (OptItem.opt o :: ·) (ih hmem)

/-- The option area with the items is decoded: every known option has the value of its last occurrence. -/
def OptionsDecoded (items : List OptItem) (trailing : List UInt8) : Prop :=
  unpackAllOptions (encodeItems items ++ 255 :: trailing) = some (some (decodedOpts (optsOf items)))

theorem optionsDecoded_of_no_pad {items : List OptItem} {trailing : List UInt8} (hwf : ∀ o ∈ optsOf items, o.WellFormed)
    (hpad : OptItem.pad ∉ items) : OptionsDecoded items trailing ↔ ∀ o ∈ optsOf items, o.data ≠ [] := by
  have henc : encodeItems items = encodeOpts (optsOf items) := by
    rw [eq_map_of_no_pad hpad, encodeItems_opts, ← eq_map_of_no_pad hpad]
  unfold OptionsDecoded
  rw [henc]
  constructor
  · intro hdec o ho hd
    have hnone : unpackAllOptions (encodeOpts ([] ++ optsOf items) ++ 255 :: trailing) = some none :=
      unpackAllOptions_of_empty (fun o ho => absurd ho List.not_mem_nil) hwf ⟨o, ho, hd⟩ _
    rw [List.nil_append, hdec] at hnone
    cases hnone
  · intro hne
    have hacc : ∀ o ∈ optsOf items, o.Accepted := fun o ho =>
      ⟨(hwf o ho).ne_end, (hwf o ho).length, hne o ho, (hwf o ho).lengthOk⟩
    exact (unpackAllOptions_eq_some_iff _ _).mpr ⟨_, trailing, rfl, hacc, rfl⟩

/-- **Options are decoded** exactly when the bytes are also those of accepted options, without PADs and with the
same last values.  Without PADs that is the case exactly when all options have data. -/
theorem options_decoded (items : List OptItem) (trailing : List UInt8) (hwf : ∀ o ∈ optsOf items, o.WellFormed) :
    (OptionsDecoded items trailing ↔ ∃ opts trailing', encodeItems items ++ 255 :: trailing =
      encodeOpts opts ++ 255 :: trailing' ∧ (∀ o ∈ opts, o.Accepted) ∧
        decodedOpts (optsOf items) = decodedOpts opts) ∧
    (OptItem.pad ∉ items → (OptionsDecoded items trailing ↔ ∀ o ∈ optsOf items, o.data ≠ [])) :=
  ⟨unpackAllOptions_eq_some_iff _ _, optionsDecoded_of_no_pad hwf⟩

end

/-- An OFFER with a server and a host name. -/
def offerItems : List OptItem := [.opt ⟨53, [2]⟩, .opt ⟨54, [192, 168, 0, 1]⟩, .opt ⟨12, [104, 105]⟩]

theorem offerItems_wellFormed : ∀ o ∈ optsOf offerItems, o.WellFormed := by
  intro o ho
  rcases List.mem_cons.mp ho with rfl | ho
  · exact ⟨by decide, by decide, by decide, rfl⟩
  rcases List.mem_cons.mp ho with rfl | ho
  · exact ⟨by decide, by decide, by decide, rfl⟩
  rcases List.mem_cons.mp ho with rfl | ho
  · exact ⟨by decide, by decide, by decide, trivial⟩
  · cases ho

theorem options_decoded_one : @OptionsDecoded ⟨true⟩ offerItems [7] ∧
    (@decodedOpts ⟨true⟩ (optsOf offerItems)).messageType = some 2 ∧
    (@decodedOpts ⟨true⟩ (optsOf offerItems)).serverIpAddress = some 0x0100a8c0 := by
  have hnopad : OptItem.pad ∉ offerItems := by
    intro h
    rcases List.mem_cons.mp h with h | h
    · cases h
    rcases List.mem_cons.mp h with h | h
    · cases h
    rcases List.mem_cons.mp h with h | h <;> cases h
  have hdata : ∀ o ∈ optsOf offerItems, o.data ≠ [] := by
    intro o ho
    rcases List.mem_cons.mp ho with rfl | ho
    · nofun
    rcases List.mem_cons.mp ho with rfl | ho
    · nofun
    rcases List.mem_cons.mp ho with rfl | ho
    · nofun
    · cases ho
  exact ⟨((@options_decoded ⟨true⟩ offerItems [7] offerItems_wellFormed).2 hnopad).mpr hdata, by decide +kernel,
    by decide +kernel⟩

/-- A host name of no bytes, and a PAD in front of the message type. -/
theorem options_not_decoded :
    (∀ o ∈ optsOf [.opt ⟨53, [2]⟩, .opt ⟨12, []⟩], o.WellFormed) ∧
      ¬ @OptionsDecoded ⟨true⟩ [.opt ⟨53, [2]⟩, .opt ⟨12, []⟩] [] ∧
      (∀ o ∈ optsOf [.pad, .opt ⟨53, [2]⟩], o.WellFormed) ∧ ¬ @OptionsDecoded ⟨true⟩ [.pad, .opt ⟨53, [2]⟩] [] := by
  refine ⟨?_, ?_, ?_, ?_⟩
  · intro o ho
    rcases List.mem_cons.mp ho with rfl | ho
    · exact ⟨by decide, by decide, by decide, rfl⟩
    rcases List.mem_cons.mp ho with rfl | ho
    · exact ⟨by decide, by decide, by decide, trivial⟩
    · cases ho
  · exact fun h => absurd (Option.some_inj.mp h) nofun
  · intro o ho
    rcases List.mem_cons.mp ho with rfl | ho
    · exact ⟨by decide, by decide, by decide, rfl⟩
    · cases ho
  · exact fun h => absurd (Option.some_inj.mp h) nofun

end Monolinux
