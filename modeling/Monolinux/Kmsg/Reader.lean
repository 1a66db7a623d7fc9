import Mathlib.Data.List.Infix
import Monolinux.Kmsg.Message

/-!
# The readers of `/dev/kmsg`

`write_log` and `command_dmesg` read record after record into a buffer of 1024 bytes and
give it to `ml_print_kernel_message`.  Only `command_dmesg` puts a NUL behind the record.
So for `write_log` a record goes on with what is behind it in the buffer: the end of a
longer record that was read before, or what the buffer held at the start.

`kernelText` is what a record should be printed as, and `Delimited` the condition on
what is behind each record in the buffer for which both print it so; `logsAgree_iff`:

    both texts are that of the records, after every read ↔ Delimited message records
-/

namespace Monolinux

/-! ## The code -/

/-- What a read stored, and what `text_pos` happens to be in the call that follows. -/
structure KmsgRead where
  bytes : List UInt8
  textPos : ℤ

/-- A loop over the reads, up to one that returns nothing; `place` puts the bytes into the buffer. -/
def printMessages (place : List UInt8 → List UInt8 → List UInt8) : List UInt8 → List KmsgRead → Option (List UInt8)
  | _, [] => some []
  | message, r :: reads => do
    let (message, line) ← mlPrintKernelMessage r.textPos (place message r.bytes)
    let text ← printMessages place message reads
    some (line ++ text)

/-- `read(fd, &message[0], ...)`. -/
def placeRead (message bytes : List UInt8) : List UInt8 := store message 0 bytes

/-- The same, and `message[size] = '\0'`. -/
def placeReadTerminated (message bytes : List UInt8) : List UInt8 := (store message 0 bytes).set bytes.length 0

/-- What `write_log()` writes once the files are open.  `failure` is the text of the error that ends the
reads, unless it is `EAGAIN`. -/
def writeLog (message : List UInt8) (reads : List KmsgRead) (failure : Option (List UInt8)) : Option (List UInt8) := do
  let text ← printMessages placeRead message reads
  match failure with
  | none => some text
  | some error => some (text ++ bytesOf "*** Failed to read message with error " ++ error ++ bytesOf ". ***\n")

/-- What `command_dmesg()` prints. -/
def commandDmesg (message : List UInt8) (reads : List KmsgRead) : Option (List UInt8) :=
  printMessages placeReadTerminated message reads

/-! ## What a record should be printed as -/

/-- The line of a record, if it is a message. -/
def kernelText (r : List UInt8) : List UInt8 :=
  match sscanf kernelFormat r with
  | ⟨[usecs], some textPos⟩ => kernelLine usecs ((r.drop textPos).takeWhile (· ≠ 0x0a))
  | _ => []

section
variable {r text : List UInt8} {usecs : UInt64}

theorem kernelText_message (h : IsKernelMessage r usecs text) : kernelText r = kernelLine usecs (firstLine text) := by
  have hscan := sscanf_message h
  obtain ⟨front, hfront⟩ := h.exists_front
  have hdrop : r.drop (r.length - (text.dropWhile isspace).length) = text.dropWhile isspace := by
    rw [hfront, List.length_append, Nat.add_sub_cancel, List.drop_left]
  unfold kernelText
  rw [hscan]
  simp only [hdrop]
  rfl

theorem kernelText_other (h : ¬∃ usecs text, IsKernelMessage r usecs text) : kernelText r = [] := by
  unfold kernelText
  by_cases hthird : HasThirdNumber r
  · obtain ⟨usecs, hscan⟩ := sscanf_third hthird h
    rw [hscan]
  · rw [sscanf_other hthird]

/-- Behind a message is more of its text. -/
theorem IsKernelMessage.append (h : IsKernelMessage r usecs text) (tail : List UInt8) :
    IsKernelMessage (r ++ tail) usecs (text ++ tail) := by
  obtain ⟨n, v, n', v', n'', chars, rfl, hnumbers⟩ := h
  exact ⟨n, v, n', v', n'', chars, by simp, hnumbers⟩

theorem HasThirdNumber.append (h : HasThirdNumber r) (tail : List UInt8) : HasThirdNumber (r ++ tail) := by
  obtain ⟨n, v, n', v', n'', v'', rest, rfl, hnumbers⟩ := h
  exact ⟨n, v, n', v', n'', v'', rest ++ tail, by simp, hnumbers⟩

theorem kernelLine_injective {line line' : List UInt8} (h : kernelLine usecs line = kernelLine usecs line') :
    line = line' := by
  unfold kernelLine at h
  simpa using h

end

/-! ## One record -/

/-- The buffer after its record was printed. -/
def bufferAfter (message : List UInt8) : List UInt8 := ((mlPrintKernelMessage 0 message).map Prod.fst).getD message

/-- What is behind the record in the buffer does not change what is printed: it adds nothing to the first line
of the message, and does not make up a third number. -/
def DelimitedRecord (message r : List UInt8) : Prop :=
  ∃ tail junk, message.drop r.length = tail ++ 0 :: junk ∧ NulFree tail ∧
    ((∃ usecs text, IsKernelMessage r usecs text ∧ firstLine (text ++ tail) = firstLine text) ∨ ¬HasThirdNumber (r ++ tail))

/-- The condition on all records, with the buffer as it is when each of them is read. -/
def Delimited : List UInt8 → List (List UInt8) → Prop
  | _, [] => True
  | message, r :: records => DelimitedRecord message r ∧ Delimited (bufferAfter (placeRead message r)) records

/-- The buffer is printed as the text of the record, whatever `text_pos` happens to be. -/
def PrintsRecord (message r : List UInt8) : Prop :=
  ∀ textPos, mlPrintKernelMessage textPos message = some (bufferAfter message, kernelText r)

section
variable {s r tail junk message : List UInt8}

/-- Where `text_pos` is set or not used, it does not matter what it was. -/
theorem mlPrintKernelMessage_textPos (hs : HasThirdNumber s → ∃ usecs text, IsKernelMessage s usecs text) (h : NulFree s)
    (textPos : ℤ) (junk : List UInt8) :
    mlPrintKernelMessage textPos (s ++ 0 :: junk) = mlPrintKernelMessage 0 (s ++ 0 :: junk) := by
  by_cases hthird : HasThirdNumber s
  · obtain ⟨usecs, text, hmessage⟩ := hs hthird
    unfold mlPrintKernelMessage
    simp only [cstr_zero junk h, Option.bind_eq_bind, Option.bind_some, sscanf_message hmessage, Option.elim_some]
  · rw [mlPrintKernelMessage_other hthird h, mlPrintKernelMessage_other hthird h]

/-- A record with something behind it that does not matter. -/
theorem printsRecord (hr : NulFree (r ++ tail))
    (h : (∃ usecs text, IsKernelMessage r usecs text ∧ firstLine (text ++ tail) = firstLine text) ∨
      ¬HasThirdNumber (r ++ tail)) : PrintsRecord (r ++ tail ++ 0 :: junk) r := by
  intro textPos
  rcases h with ⟨usecs, text, hmessage, hline⟩ | hno
  · have happend := hmessage.append tail
    obtain ⟨front, -, hprint⟩ := mlPrintKernelMessage_message happend hr 0 junk
    rw [mlPrintKernelMessage_textPos (fun _ => ⟨usecs, _, happend⟩) hr, bufferAfter, hprint, kernelText_message hmessage, hline]
    rfl
  · have hnone : ¬∃ usecs text, IsKernelMessage r usecs text := by
      rintro ⟨usecs, text, hmessage⟩
      exact hno (hmessage.hasThirdNumber.append tail)
    rw [bufferAfter, mlPrintKernelMessage_other hno hr, mlPrintKernelMessage_other hno hr, kernelText_other hnone]
    rfl

theorem placeRead_eq (h : r.length ≤ message.length) : placeRead message r = r ++ message.drop r.length := store_zero h

theorem placeReadTerminated_eq (h : r.length < message.length) :
    placeReadTerminated message r = r ++ 0 :: message.drop (r.length + 1) := by
  unfold placeReadTerminated
  rw [store_zero h.le, List.set_append_right _ _ (Nat.le_refl _), Nat.sub_self, List.drop_eq_getElem_cons h,
    List.set_cons_zero]

/-- Both loops print a record as they should if nothing behind it matters. -/
theorem DelimitedRecord.prints (h : DelimitedRecord message r) (hr : NulFree r) (hlen : r.length ≤ message.length) :
    PrintsRecord (placeRead message r) r ∧
      ∀ message', r.length < message'.length → PrintsRecord (placeReadTerminated message' r) r := by
  obtain ⟨tail, junk, hdrop, htail, hcond⟩ := h
  refine ⟨?_, fun message' hlen' => ?_⟩
  · rw [placeRead_eq hlen, hdrop, ← List.append_assoc]
    exact printsRecord (nulFree_append.mpr ⟨hr, htail⟩) hcond
  · have hnil : r = r ++ [] := (List.append_nil r).symm
    have hcond' : (∃ usecs text, IsKernelMessage r usecs text ∧ firstLine (text ++ []) = firstLine text) ∨
        ¬HasThirdNumber (r ++ []) := by
      rcases hcond with ⟨usecs, text, hmessage, -⟩ | hno
      · exact .inl ⟨usecs, text, hmessage, by rw [List.append_nil]⟩
      · refine .inr fun hthird => hno ?_
        rw [List.append_nil] at hthird
        exact hthird.append tail
    have hprints : PrintsRecord (r ++ [] ++ 0 :: message'.drop (r.length + 1)) r := printsRecord (hnil ▸ hr) hcond'
    rwa [List.append_nil, ← placeReadTerminated_eq hlen'] at hprints

/-- A buffer without a NUL is no string. -/
theorem mlPrintKernelMessage_nulFree (h : NulFree message) (textPos : ℤ) : mlPrintKernelMessage textPos message = none := by
  have hnone : cstr message 0 = none := by
    show ((message.drop 0).findIdx? _).map _ = none
    rw [List.drop_zero, List.findIdx?_eq_none_iff.mpr fun c hc => by simpa using h c hc]
    rfl
  unfold mlPrintKernelMessage
  rw [hnone]
  rfl

/-- If both loops print a record as they should, nothing behind it matters. -/
theorem delimitedRecord_of_prints (hr : NulFree r) (hlen : r.length ≤ message.length)
    (hlog : ∀ textPos, (mlPrintKernelMessage textPos (placeRead message r)).map Prod.snd = some (kernelText r))
    {message' : List UInt8} (hlen' : r.length < message'.length)
    (hdmesg : ∀ textPos, (mlPrintKernelMessage textPos (placeReadTerminated message' r)).map Prod.snd = some (kernelText r)) :
    DelimitedRecord message r := by
  -- with a NUL behind it, a record with three numbers is only printed well if it is a message
  have hthird : HasThirdNumber r → ∃ usecs text, IsKernelMessage r usecs text := by
    intro hthird
    by_contra hno
    have hprint := hdmesg 0
    rw [placeReadTerminated_eq hlen', kernelText_other hno] at hprint
    obtain ⟨⟨memory, line⟩, hprint, rfl⟩ := Option.map_eq_some_iff.mp hprint
    exact mlPrintKernelMessage_third hthird hr 0 _ memory hprint
  rw [placeRead_eq hlen] at hlog
  have hnul : ¬NulFree (message.drop r.length) := by
    intro hfree
    have hprint := hlog 0
    rw [mlPrintKernelMessage_nulFree (nulFree_append.mpr ⟨hr, hfree⟩)] at hprint
    cases hprint
  obtain ⟨junk, hdrop, htail⟩ := exists_eq_takeWhile_append hnul
  generalize (message.drop r.length).takeWhile (· ≠ 0) = tail at hdrop htail
  have hfree : NulFree (r ++ tail) := nulFree_append.mpr ⟨hr, htail⟩
  rw [hdrop, ← List.append_assoc] at hlog
  refine ⟨tail, junk, hdrop, htail, ?_⟩
  by_cases hmessage : ∃ usecs text, IsKernelMessage r usecs text
  · obtain ⟨usecs, text, hmessage⟩ := hmessage
    obtain ⟨front, -, hprint⟩ := mlPrintKernelMessage_message (hmessage.append tail) hfree 0 junk
    have hline := hlog 0
    rw [hprint, kernelText_message hmessage] at hline
    exact .inl ⟨usecs, text, hmessage, kernelLine_injective (Option.some.inj hline)⟩
  · refine .inr fun hthird' => ?_
    have hprint := hlog 0
    rw [kernelText_other hmessage] at hprint
    obtain ⟨⟨memory, line⟩, hprint, rfl⟩ := Option.map_eq_some_iff.mp hprint
    exact mlPrintKernelMessage_third hthird' hfree 0 junk memory hprint

/-- The size of the buffer stays. -/
theorem length_mlPrintKernelMessage {textPos : ℤ} {message' line : List UInt8}
    (h : mlPrintKernelMessage textPos message = some (message', line)) : message'.length = message.length := by
  have hassign {p : ℤ} (h : assign message p 0 = some message') : message'.length = message.length := by
    unfold assign at h
    split at h
    · split at h
      · rw [← Option.some.inj h, List.length_set]
      · cases h
    · cases h
  unfold mlPrintKernelMessage at h
  obtain ⟨s, -, h⟩ := Option.bind_eq_some_iff.mp h
  simp only at h
  split at h
  · obtain ⟨text, -, h⟩ := Option.bind_eq_some_iff.mp h
    obtain ⟨memory, hmemory, h⟩ := Option.bind_eq_some_iff.mp h
    obtain ⟨line', -, h⟩ := Option.bind_eq_some_iff.mp h
    obtain ⟨rfl, -⟩ := Prod.mk.inj (Option.some.inj h)
    split at hmemory
    · exact hassign hmemory
    · rw [← Option.some.inj hmemory]
  · obtain ⟨rfl, -⟩ := Prod.mk.inj (Option.some.inj h)
    rfl

theorem length_bufferAfter (message : List UInt8) : (bufferAfter message).length = message.length := by
  unfold bufferAfter
  cases h : mlPrintKernelMessage 0 message with
  | none => rfl
  | some p => exact length_mlPrintKernelMessage h

end

/-! ## All records -/

/-- Both texts are the lines of the records, one behind the other. -/
def LogsAgree (message message' : List UInt8) (records : List (List UInt8)) : Prop :=
  ∀ reads reads' : List KmsgRead, reads.map KmsgRead.bytes = records → reads'.map KmsgRead.bytes = records →
    writeLog message reads none = some (records.flatMap kernelText) ∧
      commandDmesg message' reads' = some (records.flatMap kernelText)

section
variable {place : List UInt8 → List UInt8 → List UInt8} {message message' r : List UInt8} {records : List (List UInt8)}

/-- The lines of a loop, whatever `text_pos` happens to be. -/
def PrintsAll (place : List UInt8 → List UInt8 → List UInt8) (message : List UInt8) (records : List (List UInt8)) : Prop :=
  ∀ reads : List KmsgRead, reads.map KmsgRead.bytes = records →
    printMessages place message reads = some (records.flatMap kernelText)

theorem logsAgree_def : LogsAgree message message' records ↔
    PrintsAll placeRead message records ∧ PrintsAll placeReadTerminated message' records := by
  have hlog (reads : List KmsgRead) : writeLog message reads none = printMessages placeRead message reads := by
    unfold writeLog
    cases printMessages placeRead message reads <;> rfl
  constructor
  · intro h
    refine ⟨fun reads hreads => ?_, fun reads hreads => (h reads reads hreads hreads).2⟩
    rw [← hlog]
    exact (h reads reads hreads hreads).1
  · rintro ⟨h, h'⟩ reads reads' hreads hreads'
    exact ⟨(hlog reads).trans (h reads hreads), h' reads' hreads'⟩

theorem PrintsAll.nil : PrintsAll place message [] := by
  intro reads hreads
  rw [List.map_eq_nil_iff.mp hreads]
  rfl

/-- One record. -/
theorem PrintsAll.single (h : PrintsAll place message [r]) (textPos : ℤ) :
    (mlPrintKernelMessage textPos (place message r)).map Prod.snd = some (kernelText r) := by
  have hone : printMessages place message [⟨r, textPos⟩] = some (kernelText r ++ []) := h [⟨r, textPos⟩] rfl
  obtain ⟨⟨memory, line⟩, hprint, hrest⟩ := Option.bind_eq_some_iff.mp hone
  have hline : line ++ [] = kernelText r ++ [] := Option.some.inj hrest
  rw [hprint, Option.map_some, List.append_cancel_right hline]

/-- The records behind one that is printed as it should be. -/
theorem printsAll_cons (h : PrintsRecord (place message r) r) :
    PrintsAll place message (r :: records) ↔ PrintsAll place (bufferAfter (place message r)) records := by
  have hcons (textPos : ℤ) (reads : List KmsgRead) : printMessages place message (⟨r, textPos⟩ :: reads) =
      (printMessages place (bufferAfter (place message r)) reads).map (kernelText r ++ ·) := by
    show (mlPrintKernelMessage textPos (place message r)).bind _ = _
    rw [h textPos]
    show (printMessages place (bufferAfter (place message r)) reads).bind _ = _
    cases printMessages place (bufferAfter (place message r)) reads <;> rfl
  constructor
  · intro hall reads hreads
    have htexts := hall (⟨r, 0⟩ :: reads) (by rw [List.map_cons, hreads])
    rw [hcons, List.flatMap_cons] at htexts
    obtain ⟨text, htext, heq⟩ := Option.map_eq_some_iff.mp htexts
    rw [htext, List.append_cancel_left heq]
  · intro hall reads hreads
    cases reads with
    | nil => cases hreads
    | cons read reads =>
      obtain ⟨hread, hbytes⟩ := List.cons.inj hreads
      obtain ⟨bytes, textPos⟩ := read
      obtain rfl : bytes = r := hread
      rw [hcons, hall reads hbytes, List.flatMap_cons]
      rfl

/-! ## Main results -/

/-- **When the two texts agree**: after every read both are the lines of the records that were read, if and
only if each of them is delimited by what is behind it in the buffer of `write_log`. -/
theorem logsAgree_iff (hmessage : message.length = 1024) (hmessage' : message'.length = 1024)
    (hrecords : ∀ r ∈ records, r ≠ [] ∧ r.length ≤ 1023 ∧ NulFree r) :
    (∀ front, front <+: records → LogsAgree message message' front) ↔ Delimited message records := by
  induction records generalizing message message' with
  | nil =>
    refine iff_of_true (fun front hfront => ?_) trivial
    rw [List.prefix_nil.mp hfront]
    exact logsAgree_def.mpr ⟨.nil, .nil⟩
  | cons r records ih =>
    obtain ⟨-, hlen, hr⟩ := hrecords r List.mem_cons_self
    have hlength : (placeRead message r).length = 1024 := by
      rw [placeRead, length_store, hmessage]
    have hlength' : (placeReadTerminated message' r).length = 1024 := by
      rw [placeReadTerminated, List.length_set, length_store, hmessage']
    -- what remains once the first record is printed well by both loops
    have hrest (hdelimited : DelimitedRecord message r) :
        (∀ front, front <+: records → LogsAgree message message' (r :: front)) ↔
          Delimited (bufferAfter (placeRead message r)) records := by
      obtain ⟨hlog, hdmesg⟩ := hdelimited.prints hr (by omega)
      have hih := ih ((length_bufferAfter _).trans hlength) ((length_bufferAfter _).trans hlength')
        fun r hr => hrecords r (List.mem_cons_of_mem _ hr)
      rw [← hih]
      refine forall_congr' fun front => imp_congr_right fun _ => ?_
      rw [logsAgree_def, logsAgree_def, printsAll_cons hlog, printsAll_cons (hdmesg message' (by omega))]
    constructor
    · intro hall
      have hone := logsAgree_def.mp (hall [r] (List.cons_prefix_cons.mpr ⟨rfl, List.nil_prefix⟩))
      have hdelimited := delimitedRecord_of_prints hr (by omega) hone.1.single (show r.length < message'.length by omega)
        hone.2.single
      exact ⟨hdelimited, (hrest hdelimited).mp fun front hfront => hall _ (List.cons_prefix_cons.mpr ⟨rfl, hfront⟩)⟩
    · rintro ⟨hdelimited, hdelimited'⟩ front hfront
      cases front with
      | nil => exact logsAgree_def.mpr ⟨.nil, .nil⟩
      | cons r' front =>
        obtain ⟨rfl, hfront'⟩ := List.cons_prefix_cons.mp hfront
        exact (hrest hdelimited).mpr hdelimited' front hfront'

end

/-- A buffer of zeros. -/
def zeroBuffer : List UInt8 := List.replicate 1024 0

/-- A shorter record with a newline behind a longer one: what is left of the longer one is on the next line. -/
theorem logsAgree_first : LogsAgree zeroBuffer zeroBuffer [bytesOf "6,1,5,-;abcdef\n", bytesOf "6,2,6,-;xy\n"] := by
  have hlen : zeroBuffer.length = 1024 := List.length_replicate
  have hlonger : DelimitedRecord zeroBuffer (bytesOf "6,1,5,-;abcdef\n") :=
    ⟨[], List.replicate 1008 0, by decide +kernel, .nil, .inl ⟨_, bytesOf "abcdef\n",
      ⟨bytesOf "6", _, bytesOf "1", _, bytesOf "5", bytesOf "-", by decide, isNumber_digits (by decide) (by decide),
        isNumber_digits (by decide) (by decide), isNumber_digits (by decide) (by decide), by decide,
        List.forall_mem_ne'.mpr (by decide)⟩,
      by rw [List.append_nil]⟩⟩
  have hshorter : DelimitedRecord (bufferAfter (placeRead zeroBuffer (bytesOf "6,1,5,-;abcdef\n"))) (bytesOf "6,2,6,-;xy\n") :=
    ⟨bytesOf "def", List.replicate 1009 0, by decide +kernel, by decide, .inl ⟨_, bytesOf "xy\n",
      ⟨bytesOf "6", _, bytesOf "2", _, bytesOf "6", bytesOf "-", by decide, isNumber_digits (by decide) (by decide),
        isNumber_digits (by decide) (by decide), isNumber_digits (by decide) (by decide), by decide,
        List.forall_mem_ne'.mpr (by decide)⟩,
      by decide⟩⟩
  have hall : Delimited zeroBuffer [bytesOf "6,1,5,-;abcdef\n", bytesOf "6,2,6,-;xy\n"] := ⟨hlonger, hshorter, trivial⟩
  exact (logsAgree_iff hlen hlen (by decide)).mpr hall _ List.prefix_rfl

/-- A shorter record without a newline behind a longer one: `write_log` prints the end of the longer one again. -/
theorem logs_differ :
    writeLog zeroBuffer [⟨bytesOf "6,1,5,-;abcdef\n", 0⟩, ⟨bytesOf "6,2,6,-;xy", 0⟩] none =
      some (bytesOf "[    0.000005] abcdef\n[    0.000006] xycdef\n") ∧
    commandDmesg zeroBuffer [⟨bytesOf "6,1,5,-;abcdef\n", 0⟩, ⟨bytesOf "6,2,6,-;xy", 0⟩] =
      some (bytesOf "[    0.000005] abcdef\n[    0.000006] xy\n") := by
  decide +kernel

end Monolinux
