/-! Files and output devices: how they fail, and how bytes are written to an output. -/
namespace SoftScript

inductive DeviceError where
  | notFound | permissionDenied | connectionRefused | connectionReset | hostUnreachable
  | networkUnreachable | connectionAborted | notConnected | addressInUse | addressNotAvailable
  | networkDown | brokenPipe | alreadyExists | wouldBlock | notADirectory | isADirectory
  | directoryNotEmpty | readOnlyFilesystem | filesystemLoop | staleNetworkFileHandle
  | invalidInput | invalidData | timedOut | writeZero | storageFull | notSeekable | quotaExceeded
  | fileTooLarge | resourceBusy | executableFileBusy | deadlock | crossesDevices | tooManyLinks
  | invalidFilename | argumentListTooLong | interrupted | unsupported | unexpectedEof
  | outOfMemory | inProgress | other | uncategorized
  deriving DecidableEq, Repr

def DeviceError.message : DeviceError → String
  | notFound => "entity not found"
  | permissionDenied => "permission denied"
  | connectionRefused => "connection refused"
  | connectionReset => "connection reset"
  | hostUnreachable => "host unreachable"
  | networkUnreachable => "network unreachable"
  | connectionAborted => "connection aborted"
  | notConnected => "not connected"
  | addressInUse => "address in use"
  | addressNotAvailable => "address not available"
  | networkDown => "network down"
  | brokenPipe => "broken pipe"
  | alreadyExists => "entity already exists"
  | wouldBlock => "operation would block"
  | notADirectory => "not a directory"
  | isADirectory => "is a directory"
  | directoryNotEmpty => "directory not empty"
  | readOnlyFilesystem => "read-only filesystem or storage medium"
  | filesystemLoop => "filesystem loop or indirection limit (e.g. symlink loop)"
  | staleNetworkFileHandle => "stale network file handle"
  | invalidInput => "invalid input parameter"
  | invalidData => "invalid data"
  | timedOut => "timed out"
  | writeZero => "write zero"
  | storageFull => "no storage space"
  | notSeekable => "seek on unseekable file"
  | quotaExceeded => "quota exceeded"
  | fileTooLarge => "file too large"
  | resourceBusy => "resource busy"
  | executableFileBusy => "executable file busy"
  | deadlock => "deadlock"
  | crossesDevices => "cross-device link or rename"
  | tooManyLinks => "too many links"
  | invalidFilename => "invalid filename"
  | argumentListTooLong => "argument list too long"
  | interrupted => "operation interrupted"
  | unsupported => "unsupported"
  | unexpectedEof => "unexpected end of file"
  | outOfMemory => "out of memory"
  | inProgress => "in progress"
  | other => "other error"
  | uncategorized => "uncategorized error"

/-- Where programs print to: a sequence of bytes that may be full at some point. -/
structure Output where
  written : ByteArray
  /-- How many bytes fit altogether, and the error of any write beyond them. -/
  limit : Option (Nat × DeviceError)

namespace Output

def unlimited : Output := ⟨.empty, none⟩

def limited (bytes : Nat) (error : DeviceError) : Output := ⟨.empty, some (bytes, error)⟩

/-- What a single write comes to: how many of the bytes are taken, or why none is. -/
def attempt (o : Output) (bytes : ByteArray) : Except DeviceError Nat :=
  match o.limit with
  | none => .ok bytes.size
  | some (size, error) =>
    let room := size - o.written.size
    if room = 0 then .error error else .ok (min room bytes.size)

/-- Writes again and again, until nothing is left or a write fails. A write that is interrupted
does not fail but is made again. There is no outcome within too few rounds. -/
def writeAll : Nat → Output → ByteArray → Option (Option DeviceError × Output)
  | 0, _, _ => none
  | rounds + 1, o, bytes =>
    if bytes.isEmpty then some (none, o)
    else match o.attempt bytes with
      | .ok 0 => some (some .writeZero, o)
      | .ok (taken + 1) =>
        writeAll rounds { o with written := o.written ++ bytes.extract 0 (taken + 1) }
          (bytes.extract (taken + 1) bytes.size)
      | .error .interrupted => writeAll rounds o bytes
      | .error error => some (some error, o)

/-- Writes as much of a text as fits. In every round but the last a byte is taken or the write is
interrupted, and an interrupted write is so again. If these rounds are too few, no others are
enough, and the writing has no end. -/
def write (o : Output) (text : String) : Option (Option DeviceError × Output) :=
  writeAll (text.toUTF8.size + 1) o text.toUTF8

end Output

end SoftScript
