import Mathlib

/-!
# The history of shell lines

Sixteen buffers hold the lines that were entered, and a browse position moves through them. Until
all buffers are in use a line goes to the next one. When they are full, the newest buffer is
overwritten before the buffers are shifted, so the line before the new one is lost and the new one
is stored twice.
-/

namespace TuwaiqOS.ShellHistory

/-- Bytes of a line buffer. -/
def maxLine : ℕ := 128

/-- Number of line buffers. -/
def historySize : ℕ := 16

/-- The buffers, how many of them are in use, and the one that was recalled last. -/
structure History where
  entries : ℕ → List UInt8
  count : ℕ
  browse : ℕ

namespace History

/-- No line was entered. -/
def new : History := ⟨fun _ => List.replicate maxLine 0,0,0⟩

/-- Enter the first `len` bytes of a line. -/
def push (line : List UInt8) (len : ℕ) (history : History) : History :=
  if len=0 then history
  else
    let index := min history.count (historySize-1)
    let stored := Function.update history.entries index
      (line.take len++List.replicate (maxLine-len) 0)
    if history.count<historySize then ⟨stored,history.count+1,history.count+1⟩
    else
      let shifted := (List.range' 1 (historySize-1)).foldl
        (fun entries i => Function.update entries (i-1) (entries i)) stored
      -- the tail of the last buffer was cleared above
      let last := line.take len++(shifted (historySize-1)).drop len
      ⟨Function.update shifted (historySize-1) last,history.count,history.count⟩

/-- The bytes of a buffer before the first zero. -/
def text (entry : List UInt8) : List UInt8 := entry.takeWhile (·≠0)

/-- Recall the line before the browse position. -/
def recallUp (history : History) : Option (List UInt8)×History :=
  if history.count=0 then (none,history)
  else
    let browse := if history.browse=0 then 0
      else if history.count<history.browse then history.count-1 else history.browse-1
    (some (text (history.entries browse)),{history with browse := browse})

/-- Recall the line after the browse position, or the empty line after the newest one. -/
def recallDown (history : History) : Option (List UInt8)×History :=
  if history.count=0 then (none,history)
  else if history.count≤history.browse+1 then (some [],{history with browse := history.count})
  else (some (text (history.entries (history.browse+1))),
    {history with browse := history.browse+1})

/-- Move the browse position behind the newest line. -/
def resetBrowse (history : History) : History := {history with browse := history.count}

/-- The history after some lines, each entered at a prompt of its own. -/
def pushAll (lines : List (List UInt8)) : History :=
  lines.foldl (fun history line => history.resetBrowse.push line line.length) new

/-- The history after some calls of `recall_up`. -/
def ups (count : ℕ) (history : History) : History := (fun now => now.recallUp.2)^[count] history

/-- The history after some calls of `recall_down`. -/
def downs (count : ℕ) (history : History) : History :=
  (fun now => now.recallDown.2)^[count] history

/-- A line without zeros is read back from its buffer. -/
theorem text_stored {line : List UInt8} (hline : 0∉line) (spare : ℕ) :
    text (line++List.replicate spare 0)=line := by
  unfold text
  rw [List.takeWhile_append_of_pos fun byte hbyte => by
    simpa using fun hzero : byte=0 => hline (hzero▸hbyte)]
  simp

variable {history : History}

theorem recallUp_eq (hcount : history.count≠0) (hbrowse : history.browse≤history.count) :
    history.recallUp=(some (text (history.entries (history.browse-1))),
      {history with browse := history.browse-1}) := by
  have hnext : (if history.browse=0 then 0
      else if history.count<history.browse then history.count-1 else history.browse-1)=
      history.browse-1 := by
    split_ifs <;> omega
  simp only [recallUp,if_neg hcount,hnext]

theorem recallDown_eq (hcount : history.count≠0) (hbrowse : history.browse≤history.count) :
    history.recallDown=(some (if history.browse+1<history.count then
        text (history.entries (history.browse+1)) else []),
      {history with browse := min (history.browse+1) history.count}) := by
  unfold recallDown
  rw [if_neg hcount]
  split_ifs
  · omega
  · rw [Nat.min_eq_right (by omega)]
  · rw [Nat.min_eq_left (by omega)]
  · omega

/-- Recalling older lines only moves the browse position. -/
theorem ups_eq (count : ℕ) (hcount : history.count≠0) (hbrowse : history.browse≤history.count) :
    history.ups count={history with browse := history.browse-count} := by
  induction count with
  | zero => rfl
  | succ count ih =>
    have hnext := @recallUp_eq {history with browse := history.browse-count} hcount
      (by dsimp only; omega)
    rw [ups,Function.iterate_succ_apply',← ups,ih,hnext]
    rfl

/-- Recalling newer lines only moves the browse position. -/
theorem downs_eq (count : ℕ) (hcount : history.count≠0) (hbrowse : history.browse≤history.count) :
    history.downs count={history with browse := min (history.browse+count) history.count} := by
  induction count with
  | zero => simp [downs,hbrowse]
  | succ count ih =>
    have hnext := @recallDown_eq {history with browse := min (history.browse+count) history.count}
      hcount (by dsimp only; omega)
    rw [downs,Function.iterate_succ_apply',← downs,ih,hnext]
    simp only [mk.injEq,true_and]
    omega

/-- While there are buffers left, every line is in the buffer of its number. -/
theorem pushAll_entries (lines : List (List UInt8)) (hlines : ∀ line∈lines,line≠[] ∧ 0∉line)
    (hfew : lines.length≤historySize) :
    (pushAll lines).count=lines.length ∧ (pushAll lines).browse=lines.length ∧
      ∀ index line,lines[index]?=some line → text ((pushAll lines).entries index)=line := by
  induction lines using List.reverseRecOn with
  | nil => simp [pushAll,new]
  | append_singleton lines line ih =>
    rw [List.length_append,List.length_singleton] at hfew
    obtain ⟨hcount,-,hentries⟩ := ih (fun other hother => hlines other (by simp [hother])) (by omega)
    obtain ⟨hsome,hzero⟩ := hlines line (by simp)
    have hindex : min lines.length (historySize-1)=lines.length := by omega
    have hpush : pushAll (lines++[line])=⟨Function.update (pushAll lines).entries lines.length
        (line++List.replicate (maxLine-line.length) 0),lines.length+1,lines.length+1⟩ := by
      rw [pushAll,List.foldl_concat,← pushAll,push,resetBrowse,
        if_neg (List.length_pos_iff.mpr hsome).ne']
      dsimp only
      rw [hcount,if_pos (by omega),hindex,List.take_length]
    rw [hpush]
    refine ⟨by simp,by simp,fun index other hother => ?_⟩
    dsimp only
    rw [Function.update_apply]
    split
    · rename_i hlast
      rw [hlast,List.getElem?_concat_length] at hother
      rw [text_stored hzero,Option.some.inj hother]
    · rename_i hearlier
      have hlength := (List.getElem?_eq_some_iff.mp hother).1
      rw [List.length_append,List.length_singleton] at hlength
      rw [List.getElem?_append_left (by omega)] at hother
      exact hentries index other hother

/-- Up to sixteen lines are kept in order. Each further `recall_up` returns the line before, and
in the end the oldest one again; each further `recall_down` returns the line after, and in the end
the empty line. -/
theorem recalls_of_few (lines : List (List UInt8))
    (hlines : ∀ line∈lines,line≠[] ∧ 0∉line ∧ line.length≤ maxLine)
    (hfew : lines.length≤historySize) :
    (pushAll lines).count=lines.length ∧
      (∀ index line,lines[index]?=some line → text ((pushAll lines).entries index)=line) ∧
      (∀ k,((pushAll lines).ups k).recallUp.1=lines[lines.length-min (k+1) lines.length]?) ∧
      ∀ k m,lines≠[] → (((pushAll lines).ups k).downs m).recallDown.1=
        some (lines.getD (lines.length-min k lines.length+m+1) []) := by
  obtain ⟨hcount,hbrowse,hentries⟩ :=
    pushAll_entries lines (fun line hline => ⟨(hlines line hline).1,(hlines line hline).2.1⟩) hfew
  refine ⟨hcount,hentries,fun k => ?_,fun k m hsome => ?_⟩
  · by_cases hsome : lines=[]
    · subst hsome
      rw [ups,Function.iterate_fixed rfl]
      rfl
    · have hlength := List.length_pos_iff.mpr hsome
      rw [ups_eq k (by omega) (by omega),recallUp_eq (by dsimp only; omega) (by dsimp only; omega)]
      have hindex : lines.length-min (k+1) lines.length=lines.length-k-1 := by omega
      have hline := List.getElem?_eq_getElem (show lines.length-k-1<lines.length by omega)
      dsimp only
      rw [hindex,hline,hbrowse,hentries _ _ hline]
  · have hlength := List.length_pos_iff.mpr hsome
    rw [ups_eq k (by omega) (by omega),downs_eq m (by dsimp only; omega) (by dsimp only; omega),
      recallDown_eq (by dsimp only; omega) (by dsimp only; omega)]
    dsimp only
    rw [hbrowse,hcount]
    split_ifs with hnewer
    · have hindex : min (lines.length-k+m) lines.length+1=
          lines.length-min k lines.length+m+1 := by omega
      rw [hindex] at hnewer ⊢
      rw [hentries _ _ (List.getElem?_eq_getElem hnewer),List.getD_eq_getElem _ _ hnewer]
    · rw [List.getD_eq_default _ _ (by omega)]

/-- Three lines. -/
def threeLines : List (List UInt8) := [[97],[98,98],[99]]

/-- The second `recall_up` after three lines returns the second line. -/
theorem recalls_of_few_three : ((pushAll threeLines).ups 1).recallUp.1=some [98,98] :=
  (recalls_of_few threeLines (by decide) (by decide)).2.2.1 1

/-- Seventeen lines: the newest is recalled twice, the one before it is not recalled. -/
theorem newest_stored_twice :
    (pushAll ((List.range 17).map fun index => [97+index.toUInt8])).recallUp.1=some [113] ∧
      ((pushAll ((List.range 17).map fun index => [97+index.toUInt8])).ups 1).recallUp.1=
        some [113] := by
  decide +kernel

end History

end TuwaiqOS.ShellHistory
