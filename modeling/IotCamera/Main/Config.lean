import IotCamera.Lib.Packed
import IotCamera.Lib.Run

/-!
# The configuration file

`config.cpp` keeps the configuration three times: in the file, in `cfgdata`,
which the rest of the program reads and edits through `getCfg`, and in
`cfgdata_bak`, by which `savecfg` sees whether there is anything to write.

The record is packed, so its bytes in memory are its fields one after
another, and those are the bytes that go to the file (the board is
little-endian). The file is the list of its bytes, if it exists. What the
operating system answers is part of the operation: the descriptor of each
`open`, and how many bytes each `read` and `write` moves. A descriptor is
negative if `open` failed. The code asks whether it is zero, so a failed
`open` is taken for a good one, and the calls on it do nothing.
-/

namespace IotCamera

/-- `CHECKSTART` -/
def checkStart : UInt32 := 9423434

/-- `CHEKEND` -/
def chekEnd : UInt32 := 342134

@[ext] structure CFGDATA where
  runcount : UInt32
  checkstart : UInt32
  network_mod : UInt8
  rtmpurl : Bytes 128
  checkend : UInt32
  deriving DecidableEq

namespace CFGDATA

/-- The fields in the order of the declaration. -/
def fields : CFGDATA ≃ UInt32 × UInt32 × UInt8 × Bytes 128 × UInt32 where
  toFun c := (c.runcount, c.checkstart, c.network_mod, c.rtmpurl, c.checkend)
  invFun p := ⟨p.1, p.2.1, p.2.2.1, p.2.2.2.1, p.2.2.2.2⟩
  left_inv _ := rfl
  right_inv _ := rfl

/-- `sizeof(struct CFGDATA)` -/
def size : Nat := 141

open Packed in
/-- The record in memory. -/
def image : Packed CFGDATA size :=
  fields.trans (seq u32le (seq u32le (seq byte (seq (array 128) u32le))))

/-- A record of zeros. -/
def zero : CFGDATA := image.symm (Packed.zeros size)

/-- The test of `readcfg`. -/
def Valid (c : CFGDATA) : Prop := c.checkstart = checkStart ∧ c.checkend = chekEnd

instance (c : CFGDATA) : Decidable c.Valid :=
  inferInstanceAs (Decidable (c.checkstart = checkStart ∧ c.checkend = chekEnd))

/-- What `readcfg` sets up if the file is no use. -/
def default : CFGDATA :=
  { zero with checkstart := checkStart, checkend := chekEnd, network_mod := 0 }

end CFGDATA

/-- `mymemcmp` over the first `n` bytes. -/
def mymemcmp : List UInt8 → List UInt8 → Nat → Int
  | a :: s1, b :: s2, n + 1 => if a ≠ b then -1 else mymemcmp s1 s2 n
  | _, _, _ => 0

/-- The answers to the `open` and the `write` of `savecfg`. -/
structure Saving where
  fd : Int
  written : Nat
  deriving DecidableEq

/-- The answers to the `open` and the `read` of `readcfg`, and to the calls of
the `savecfg` it may make. -/
structure Loading where
  fd : Int
  got : Nat
  saving : Saving
  deriving DecidableEq

/-- The file and the two statics. -/
structure Config where
  file : Option (List UInt8)
  cfgdata : CFGDATA
  cfgdata_bak : CFGDATA
  deriving DecidableEq

namespace Config

/-- The process has started. -/
def boot (file : Option (List UInt8)) : Config := ⟨file, .zero, .zero⟩

/-- `open(path, O_RDWR | O_CREAT | O_TRUNC)` -/
def openTrunc (fd : Int) (s : Config) : Config :=
  if 0 ≤ fd then { s with file := some [] } else s

/-- `write(fd, &cfgdata, sizeof(struct CFGDATA))` at the start of the empty
file. -/
def write (fd : Int) (written : Nat) (s : Config) : Config :=
  if 0 ≤ fd then { s with file := some ((CFGDATA.image s.cfgdata).1.take written) } else s

def savecfg (o : Saving) (s : Config) : Config :=
  if mymemcmp (CFGDATA.image s.cfgdata).1 (CFGDATA.image s.cfgdata_bak).1 CFGDATA.size = 0 then
    s
  else
    let s := s.openTrunc o.fd
    if o.fd ≠ 0 then
      let s := s.write o.fd o.written
      { s with cfgdata_bak := s.cfgdata }
    else s

/-- The bytes `read(fd, buf, sizeof(struct CFGDATA))` moves. -/
def read (fd : Int) (got : Nat) (s : Config) : List UInt8 :=
  if 0 ≤ fd then ((s.file.getD []).take CFGDATA.size).take got else []

/-- The first half of `readcfg`: `cfgdata` is cleared and the file is read
over it. -/
def load (o : Loading) (s : Config) : Config :=
  let buf := Packed.zeros CFGDATA.size
  let buf := if o.fd ≠ 0 then Packed.readInto (s.read o.fd o.got) buf else buf
  { s with cfgdata := CFGDATA.image.symm buf }

def readcfg (o : Loading) (s : Config) : Config :=
  let s := s.load o
  let s := if s.cfgdata.Valid then s else savecfg o.saving { s with cfgdata := .default }
  { s with cfgdata_bak := s.cfgdata }

inductive Op
  /-- the program stores through `getCfg` -/
  | edit (c : CFGDATA)
  | savecfg (o : Saving)
  | readcfg (o : Loading)
  /-- the process starts again, and `main` calls `readcfg` -/
  | reboot (o : Loading)
  deriving DecidableEq

/-- An operation. A file that does not exist cannot be opened for reading. -/
def step (s : Config) : Op → Option Config
  | .edit c => some { s with cfgdata := c }
  | .savecfg o => some (s.savecfg o)
  | .readcfg o => if s.file = none ∧ 0 ≤ o.fd then none else some (s.readcfg o)
  | .reboot o => if s.file = none ∧ 0 ≤ o.fd then none else some ((boot s.file).readcfg o)

end Config

end IotCamera
