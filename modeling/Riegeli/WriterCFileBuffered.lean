import Riegeli.BufferedWriterSpec
import Riegeli.WriterCFileRefinement

/-!
# A `FILE` over a `BufferedWriter`

`WriterCFile` over a `BufferedWriter` whose subclass supports neither random access nor read
mode nor `Size()`, as an `FdWriter` on a pipe: the cookie's `Writer` operations are the
`BufferedWriter`'s. `OpenMode()` is then `"w"`, so stdio calls only the write and seek
callbacks; a seek never reaches the writer. Every byte written through the stream is handed to
the destination in order, when the buffer is synced, and with `flush_type_` set before the
call returns.
-/

namespace Riegeli
namespace WriterCFile

open BufferedWriter

variable (cfg : WriterConfig) (sink : Sink)

section Buffered

/-- The cookie in write mode over a writer that got `bytes` since `w`. -/
structure Delivered (w : BufferedWriter) (bytes : List Char) (c : Cookie BufferedWriter Empty) :
    Prop where
  reader : c.reader = none
  wrote : Wrote w c.writer bytes
  writeFault : c.writer.writeFault = w.writeFault
  flushed : c.writer.healthy = true → c.flushes = true → c.writer.buffer = []

theorem Delivered.refl {c : Cookie BufferedWriter Empty} (hr : c.reader = none)
    (hf : c.writer.healthy = true → c.flushes = true → c.writer.buffer = []) :
    Delivered c.writer [] c :=
  ⟨hr, .refl _, rfl, hf⟩

theorem Delivered.trans {w : BufferedWriter} {b b' : List Char} {c c' : Cookie BufferedWriter Empty}
    (h : Delivered w b c) (h' : Delivered c.writer b' c') : Delivered w (b ++ b') c' :=
  ⟨h'.reader, h.wrote.trans h'.wrote, h'.writeFault.trans h.writeFault, h'.flushed⟩

end Buffered

end WriterCFile
end Riegeli
