/-
Frames that are built and read back.

Every builder makes a frame: a header for some category and the length of the content, and the
content behind it.  What holds of a frame, that it is accepted with its own length whatever lies
behind it, and that the header and the content are read as they were written, is so shown once.
-/
import Awoke.Proofs.LitetalkMatch

namespace Awoke.Cmder

/-! ### Frames -/

/-- What a frame can carry: with the header its length is an `int`. -/
abbrev Content := { bs : List UInt8 // 10 + bs.length < 2 ^ 31 }

/-- `litetalk_pack_header` in front of some content. -/
def frame (category : UInt8) (content : List UInt8) : List UInt8 :=
  packHeader category (UInt32.ofNat content.length) ++ content

/-- A buffer that begins with these bytes, over any memory. -/
def buffer (m : Cells UInt8) (bs more : List UInt8) : Cells UInt8 := Cells.write m 0 (bs ++ more)

theorem frame_length (category : UInt8) (content : List UInt8) :
    (frame category content).length = 10 + content.length := by
  rw [frame, List.length_append]
  rfl

section Frame

variable (m : Cells UInt8) (category : UInt8) (content more : List UInt8)

theorem buffer_header {k : Nat} (hk : k < 10) :
    buffer m (frame category content) more k =
      (packHeader category (UInt32.ofNat content.length)).getD k 0 := by
  have hlen : k < (frame category content ++ more).length := by
    rw [List.length_append, frame_length]
    omega
  have hcell := Cells.write_inside m 0 _ hlen
  rw [Int.zero_add] at hcell
  have hhead : k < (packHeader category (UInt32.ofNat content.length)).length := hk
  rw [buffer, hcell, List.getD_eq_getElem?_getD, List.getElem?_eq_getElem hhead, Option.getD_some]
  simp only [frame, List.append_assoc, List.getElem_append_left hhead]

/-- The bytes of the content. -/
theorem buffer_content :
    Cells.slice (buffer m (frame category content) more) 10 content.length = content := by
  refine Cells.slice_eq_iff.mpr fun k hk => ?_
  have hlen : 10 + k < (frame category content ++ more).length := by
    rw [List.length_append, frame_length]
    omega
  have hcell := Cells.write_inside m 0 _ hlen
  rw [Int.zero_add] at hcell
  have hhead : (packHeader category (UInt32.ofNat content.length)).length ≤ 10 + k :=
    Nat.le_add_right 10 k
  rw [buffer, show (10 : Int) + k = ((10 + k : Nat) : Int) from rfl, hcell]
  simp only [frame, List.append_assoc]
  rw [List.getElem_append_right hhead, List.getElem_append_left (by
    show 10 + k - 10 < content.length
    omega)]
  congr 1
  show 10 + k - 10 = k
  omega

theorem buffer_field {a n : Nat} {bs : List UInt8} (hbs : (content.drop a).take n = bs)
    (hn : a + n ≤ content.length) :
    Cells.slice (buffer m (frame category content) more) (10 + a) n = bs := by
  have hcontent := buffer_content m category content more
  calc Cells.slice (buffer m (frame category content) more) (10 + a) n
      = ((Cells.slice (buffer m (frame category content) more) 10 content.length).drop a).take n :=
        by rw [Cells.slice_drop _ _ (by omega), Cells.slice_take _ _ (by omega)]
    _ = bs := by rw [hcontent, hbs]

/-- **The header** is read as it was packed. -/
theorem readHeader_frame : readHeader (buffer m (frame category content) more) =
    { category := category, flag := 0, contentLength := UInt32.ofNat content.length } := by
  have hcategory : buffer m (frame category content) more 4 = category :=
    buffer_header m category content more (k := 4) (by decide)
  have hflag : buffer m (frame category content) more 5 = 0 :=
    buffer_header m category content more (k := 5) (by decide)
  have hlength : htonl (pullDwrd (buffer m (frame category content) more) 6) =
      UInt32.ofNat content.length := by
    rw [htonl_pullDwrd_iff]
    show Cells.slice _ 6 (pushHtonl (UInt32.ofNat content.length)).length = pushHtonl _
    refine Cells.slice_eq_iff.mpr fun k hk => ?_
    have hfour : k < 4 := hk
    have hcell := buffer_header m category content more (k := 6 + k) (by omega)
    rw [Int.natCast_add] at hcell
    refine hcell.trans ?_
    interval_cases k <;> rfl
  rw [readHeader, hcategory, hflag, hlength]

/-- **The frame** is accepted, as long as it is. -/
theorem litetalkMatch_frame (hcontent : 10 + content.length < 2 ^ 31) (rlen : Int) :
    litetalkMatch (buffer m (frame category content) more)
        (frame category content ++ more).length rlen =
      (.etOk, ((frame category content).length : Int)) := by
  have hmark : Cells.slice (buffer m (frame category content) more) 0 4 = markBytes := by
    show Cells.slice _ 0 markBytes.length = markBytes
    refine Cells.slice_eq_iff.mpr fun k hk => ?_
    have hfour : k < 4 := hk
    have hcell := buffer_header m category content more (k := k) (by omega)
    rw [Int.zero_add]
    refine hcell.trans ?_
    interval_cases k <;> rfl
  have hlength : contentLength (buffer m (frame category content) more) = content.length := by
    rw [← contentLength_eq, readHeader_frame]
    exact Nat.mod_eq_of_lt (by omega)
  have hframe : frameLength (buffer m (frame category content) more) =
      (frame category content).length := by
    rw [frameLength_eq (by omega), hlength, frame_length]
  have hlong : (frame category content).length ≤ (frame category content ++ more).length := by
    rw [List.length_append]
    exact Nat.le_add_right _ _
  have hten := frame_length category content
  have hok : (litetalkMatch (buffer m (frame category content) more)
      (frame category content ++ more).length rlen).1 = .etOk :=
    litetalkMatch_ok_iff.mpr ⟨by omega, hmark, by rw [hframe]; exact_mod_cast hlong⟩
  rw [litetalkMatch_ok hok, hframe]

end Frame

/-! ### The builders -/

theorem litetalkBuildCmderr_eq (info : LitetalkCmdinfo) (code : UInt8) :
    litetalkBuildCmderr info code =
      frame categoryCOMMAND [info.cmdtype, code, info.flag, 0, 0, 0, 0] := rfl

theorem buildStreamAck_eq (streamid : UInt8) (index : UInt16) (code : UInt8) :
    buildStreamAck streamid index code =
      frame categorySTREAM (streamStACK :: streamid :: (pushHtons index ++ [code])) := rfl

theorem litetalkBuildLog_eq (level : UInt8) (src : UInt32) (context : List UInt8) :
    litetalkBuildLog level src context =
      frame categoryLOG (pushHtonl 0 ++ [level] ++ pushHtonl src ++ context) := rfl

/-! ### Reading back -/

/-- The bytes of a frame with anything behind it are accepted, its header is this one, and this is
its content. -/
structure ReadsBack (m : Cells UInt8) (bs more : List UInt8) (head : LitetalkHeader)
    (content : List UInt8) : Prop where
  accepted : ∀ rlen,
    litetalkMatch (buffer m bs more) (bs ++ more).length rlen = (.etOk, (bs.length : Int))
  header : readHeader (buffer m bs more) = head
  content : Cells.slice (buffer m bs more) 10 head.contentLength.toNat = content

theorem readsBack_frame (m : Cells UInt8) (category : UInt8) (content : Content)
    (more : List UInt8) :
    ReadsBack m (frame category content.1) more
      { category := category, flag := 0, contentLength := UInt32.ofNat content.1.length }
      content.1 := by
  have hcontent := content.2
  have hcount : (UInt32.ofNat content.1.length).toNat = content.1.length :=
    Nat.mod_eq_of_lt (by omega)
  refine ⟨litetalkMatch_frame m category content.1 more content.2,
    readHeader_frame m category content.1 more, ?_⟩
  rw [hcount]
  exact buffer_content m category content.1 more

theorem buffer_byte (m : Cells UInt8) (category : UInt8) (content more : List UInt8) {a : Nat}
    (ha : a < content.length) :
    buffer m (frame category content) more (10 + a) = content[a] := by
  have hone : (content.drop a).take 1 = [content[a]] := by
    rw [List.drop_eq_getElem_cons ha]
    rfl
  have hfield := buffer_field m category content more hone ha
  simpa [Cells.slice] using hfield

/-- The calls that come before those for a frame. -/
def initCalls (initialized : Bool) : List LitetalkCall :=
  if initialized then [] else [.protocolInit]

section Read

variable (m : Cells UInt8) (more : List UInt8) (initialized : Bool) (junk : UInt32)

/-- **A command** is read as the first two bytes of its content and the rest. -/
theorem litetalkRead_command (cinfo : LitetalkCmdinfo) (payload : List UInt8) :
    let buf := buffer m (frame categoryCOMMAND (cinfo.cmdtype :: cinfo.flag :: payload)) more
    litetalkRead initialized buf junk = (.etOk, initCalls initialized ++
        [.command cinfo 12 (UInt32.ofNat payload.length)]) ∧
      Cells.slice buf 12 payload.length = payload := by
  intro buf
  have hbyte := fun a ha => buffer_byte m categoryCOMMAND
    (cinfo.cmdtype :: cinfo.flag :: payload) more (a := a) ha
  have hcmdtype : buf 10 = cinfo.cmdtype := hbyte 0 (Nat.zero_lt_succ _)
  have hflag : buf (10 + 1) = cinfo.flag := hbyte 1 (Nat.succ_lt_succ (Nat.zero_lt_succ _))
  have hlength : UInt32.ofNat (payload.length + 1 + 1) - 2 = UInt32.ofNat payload.length := by
    rw [UInt32.ofNat_add, UInt32.ofNat_add, UInt32.add_assoc]
    exact UInt32.add_sub_cancel _ _
  refine ⟨?_, buffer_field m categoryCOMMAND _ more (a := 2) (n := payload.length)
    List.take_length (Nat.le_of_eq (Nat.add_comm 2 payload.length))⟩
  rw [litetalkRead, readHeader_frame, if_pos rfl, litetalkCommandRead, hcmdtype, hflag]
  show (ErrType.etOk, _ ++ [LitetalkCall.command cinfo 12
    (UInt32.ofNat (payload.length + 1 + 1) - 2)]) = _
  rw [hlength]
  rfl

/-- **An acknowledgement** is passed over. -/
theorem litetalkRead_ack (streamid : UInt8) (index : UInt16) (code : UInt8) :
    litetalkRead initialized (buffer m (buildStreamAck streamid index code) more) junk =
      (.etOk, initCalls initialized) := by
  have hsubtype : buffer m (buildStreamAck streamid index code) more 10 = streamStACK :=
    buffer_byte m categorySTREAM (streamStACK :: streamid :: (pushHtons index ++ [code])) more
      (a := 0) (Nat.zero_lt_succ _)
  rw [buildStreamAck_eq] at hsubtype ⊢
  rw [litetalkRead, readHeader_frame]
  show (ErrType.etOk, initCalls initialized ++ litetalkStreamRead _ 10 _ junk) = _
  rw [litetalkStreamRead, hsubtype, if_neg (by decide), List.append_nil]

/-- **A log record** is of no category that is known. -/
theorem litetalkRead_log (level : UInt8) (src : UInt32) (context : List UInt8) :
    litetalkRead initialized (buffer m (litetalkBuildLog level src context) more) junk =
      (.errParam, initCalls initialized) := by
  rw [litetalkBuildLog_eq, litetalkRead, readHeader_frame]
  rfl

end Read

/-- What a log record can carry. -/
abbrev Context := { bs : List UInt8 // 19 + bs.length < 2 ^ 31 }

/-- The content of a log record. -/
def logContent (level : UInt8) (src : UInt32) (context : List UInt8) : List UInt8 :=
  pushHtonl 0 ++ [level] ++ pushHtonl src ++ context

theorem logContent_length (level : UInt8) (src : UInt32) (context : List UInt8) :
    (logContent level src context).length = 9 + context.length := by
  rw [logContent, List.length_append]
  rfl

/-- **What comes back of what the builders make.**  Over any memory and with any bytes behind it, a
frame that was built is accepted with its own length, with its header and its content.  Of a
command's answer `litetalk_read` takes the code for the flag; an acknowledgement it does not take
apart, and a log record it refuses. -/
theorem litetalk_encode_decode (m : Cells UInt8) (more : List UInt8) (initialized : Bool)
    (junk : UInt32) :
    (∀ (category : UInt8) (content : Content),
      ReadsBack m (frame category content.1) more
        { category := category, flag := 0, contentLength := UInt32.ofNat content.1.length }
        content.1) ∧
    (∀ (info : LitetalkCmdinfo) (code : UInt8),
      ReadsBack m (litetalkBuildCmderr info code) more
        { category := categoryCOMMAND, flag := 0, contentLength := 7 }
        [info.cmdtype, code, info.flag, 0, 0, 0, 0] ∧
      litetalkRead initialized (buffer m (litetalkBuildCmderr info code) more) junk =
        (.etOk, initCalls initialized ++
          [.command { cmdtype := info.cmdtype, flag := code } 12 5]) ∧
      Cells.slice (buffer m (litetalkBuildCmderr info code) more) 12 5 =
        [info.flag, 0, 0, 0, 0]) ∧
    (∀ (streamid : UInt8) (index : UInt16) (code : UInt8),
      ReadsBack m (buildStreamAck streamid index code) more
        { category := categorySTREAM, flag := 0, contentLength := 5 }
        (streamStACK :: streamid :: (pushHtons index ++ [code])) ∧
      litetalkRead initialized (buffer m (buildStreamAck streamid index code) more) junk =
        (.etOk, initCalls initialized)) ∧
    (∀ (level : UInt8) (src : UInt32) (context : Context),
      ReadsBack m (litetalkBuildLog level src context.1) more
        { category := categoryLOG, flag := 0
          contentLength := UInt32.ofNat (9 + context.1.length) }
        (logContent level src context.1) ∧
      litetalkRead initialized (buffer m (litetalkBuildLog level src context.1) more) junk =
        (.errParam, initCalls initialized)) := by
  refine ⟨fun category content => readsBack_frame m category content more, fun info code => ?_,
    fun streamid index code => ⟨?_, litetalkRead_ack m more initialized junk streamid index code⟩,
    fun level src context => ⟨?_, litetalkRead_log m more initialized junk level src context.1⟩⟩
  · exact ⟨readsBack_frame m categoryCOMMAND
      ⟨[info.cmdtype, code, info.flag, 0, 0, 0, 0], show 17 < 2 ^ 31 by decide⟩ more,
      litetalkRead_command m more initialized junk ⟨info.cmdtype, code⟩ [info.flag, 0, 0, 0, 0]⟩
  · exact readsBack_frame m categorySTREAM
      ⟨streamStACK :: streamid :: (pushHtons index ++ [code]), show 15 < 2 ^ 31 by decide⟩ more
  · have hcontext := context.2
    have hlength := logContent_length level src context.1
    rw [← hlength]
    exact readsBack_frame m categoryLOG ⟨logContent level src context.1, by omega⟩ more

/-- **The flag of a command's answer** does not come back: it says 0, and what is read is the
code. -/
theorem cmderr_flag_lost :
    ¬∀ (info : LitetalkCmdinfo) (code : UInt8), ∃ pos length,
      (litetalkRead true (buffer (fun _ => 0) (litetalkBuildCmderr info code) []) 0).2 =
        [.command info pos length] := by
  intro h
  obtain ⟨pos, length, hcall⟩ := h ⟨3, 0⟩ 1
  have hread := (litetalkRead_command (fun _ => 0) [] true 0 ⟨3, 1⟩ [0, 0, 0, 0, 0]).1
  rw [litetalkBuildCmderr_eq] at hcall
  rw [hread] at hcall
  have hinfo := (LitetalkCall.command.inj (List.head_eq_of_cons_eq hcall)).1
  exact absurd (congrArg LitetalkCmdinfo.flag hinfo) (by decide)

end Awoke.Cmder
