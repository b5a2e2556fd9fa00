import TimelineMixer.Timeline

/-!
# A demonstration timeline

Three contiguous atoms of four seconds, one layer that runs through all of them and two that overlay
it.
-/

set_option autoImplicit false
set_option relaxedAutoImplicit false

namespace TimelineMixer.Timeline

/-- The atoms of the demonstration, for three layers. -/
def demoAtoms (bed early late : LayerId) : List Atom :=
  let bed : Layer := ⟨bed, .ofInt 0, .ofInt 12, 0.6⟩
  let early : Layer := ⟨early, .ofInt 2, .ofInt 6, 0.4⟩
  let late : Layer := ⟨late, .ofInt 7, .ofInt 12, 0.5⟩
  [⟨.ofInt 0, .ofInt 4, [bed, early]⟩,
    ⟨.ofInt 4, .ofInt 8, [bed, early, late]⟩,
    ⟨.ofInt 8, .ofInt 12, [bed, late]⟩]

/-- The demonstration. -/
def demo (bed early late : LayerId) : Except Fault Timeline :=
  make (demoAtoms bed early late)

end TimelineMixer.Timeline
