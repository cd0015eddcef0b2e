import Mathlib

namespace Rodos.SoftState

variable {Key Peer Time : Type*}

/-- Who has what, as far as one has heard, and when each was heard last. -/
structure Directory (Key Peer Time : Type*) where
  known : Set (Key × Peer)
  lastHeard : Peer → Option Time

/-- A peer has told what it has, or what is old has been thrown away. -/
inductive Note (Key Peer Time : Type*)
  | heard (peer : Peer) (keys : Set Key) (time : Time)
  | swept (old : Time)

def Note.time : Note Key Peer Time → Time
  | .heard _ _ time => time
  | .swept old => old

namespace Directory

def empty : Directory Key Peer Time := ⟨∅, fun _ => none⟩

def hear [DecidableEq Peer] (d : Directory Key Peer Time) (peer : Peer) (keys : Set Key)
    (time : Time) : Directory Key Peer Time where
  known := {e | e ∈ d.known ∨ e.2 = peer ∧ e.1 ∈ keys}
  lastHeard := Function.update d.lastHeard peer (some time)

variable [LinearOrder Time]

def sweep (d : Directory Key Peer Time) (old : Time) : Directory Key Peer Time where
  known := {e | e ∈ d.known ∧ ∀ time ∈ d.lastHeard e.2, old ≤ time}
  lastHeard := d.lastHeard

variable [DecidableEq Peer]

def after (d : Directory Key Peer Time) : Note Key Peer Time → Directory Key Peer Time
  | .heard peer keys time => d.hear peer keys time
  | .swept old => d.sweep old

end Directory

section

variable [LinearOrder Time] [DecidableEq Peer]

def directory (notes : List (Note Key Peer Time)) : Directory Key Peer Time :=
  notes.foldl Directory.after .empty

theorem directory_concat (notes : List (Note Key Peer Time)) (note : Note Key Peer Time) :
    directory (notes ++ [note]) = (directory notes).after note := by
  rw [directory, List.foldl_append]
  rfl

/-- Nothing that is heard is older than what has been noted before. -/
def Ordered (notes : List (Note Key Peer Time)) : Prop :=
  notes.Pairwise (fun earlier later =>
    ∀ peer keys time, later = .heard peer keys time → earlier.time ≤ time)

variable {notes : List (Note Key Peer Time)}

theorem fresh_of_known (h : Ordered notes) :
    ∀ e ∈ (directory notes).known, ∃ time, (directory notes).lastHeard e.2 = some time ∧
      ∀ old, .swept old ∈ notes → old ≤ time := by
  induction notes using List.reverseRecOn with
  | nil => exact fun e he => absurd he (Set.notMem_empty e)
  | append_singleton notes note ih =>
    obtain ⟨hnotes, -, hlast⟩ := List.pairwise_append.mp h
    rw [directory_concat]
    intro e he
    cases note with
    | swept old =>
      obtain ⟨time, htime, hfresh⟩ := ih hnotes e he.1
      refine ⟨time, htime, ?_⟩
      intro old' hold'
      obtain hold' | hold' := List.mem_append.mp hold'
      · exact hfresh old' hold'
      · obtain rfl := Note.swept.inj (List.mem_singleton.mp hold')
        exact he.2 time htime
    | heard peer keys time =>
      have hbefore : ∀ old, .swept old ∈ notes ++ [.heard peer keys time] → old ≤ time ∧
          Note.swept old ∈ notes := by
        intro old hold
        obtain hold | hold := List.mem_append.mp hold
        · exact ⟨hlast _ hold _ (List.mem_singleton_self _) peer keys time rfl, hold⟩
        · cases List.mem_singleton.mp hold
      by_cases hpeer : e.2 = peer
      · refine ⟨time, ?_, fun old hold => (hbefore old hold).1⟩
        rw [hpeer]
        exact Function.update_self ..
      · obtain hold | ⟨hpeer', -⟩ := he
        · obtain ⟨time', htime', hfresh⟩ := ih hnotes e hold
          refine ⟨time', ?_, fun old hold => hfresh old (hbefore old hold).2⟩
          exact (Function.update_of_ne hpeer ..).trans htime'
        · exact absurd hpeer' hpeer

end

end Rodos.SoftState
