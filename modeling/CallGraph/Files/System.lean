/-
  CallGraph.Files.System — the files that a program finds around it.

  Beside its own directory a program finds the devices, its channels under several names, texts of
  the system, and directories in which files can be made.
-/

import CallGraph.Files.Tree

namespace CallGraph.Files

/-- The directory in which a program runs. -/
def workingPlace : Place := ["tmp", "work"]

def channelNodes : List (Place × Node) :=
  [(["proc", "self", "fd", "0"], .channel .input),
   (["proc", "self", "fd", "1"], .channel .output),
   (["proc", "self", "fd", "2"], .channel .error),
   (["dev", "fd"], .link "/proc/self/fd"),
   (["dev", "stdin"], .link "/proc/self/fd/0"),
   (["dev", "stdout"], .link "/proc/self/fd/1"),
   (["dev", "stderr"], .link "/proc/self/fd/2")]

def deviceNodes : List (Place × Node) :=
  [(["dev", "null"], .sink), (["dev", "full"], .full), (["dev", "zero"], .endless),
   (["dev", "random"], .endless), (["dev", "urandom"], .endless), (["dev", "tty"], .closed)]

/-- The words of a text that every system has. None of these is a trace, so the name of the text
stands for them. -/
def wordsOf (name : String) : ByteArray := (name ++ "\n").toUTF8

/-- Texts that are kept on a disk. -/
def textNodes : List (Place × Node) :=
  ["passwd", "group", "hosts", "hostname", "os-release"].map fun name =>
    (["etc", name], .file (wordsOf name))

/-- Texts that the system makes up when they are read. They can be opened for writing but take
nothing. -/
def reportNodes : List (Place × Node) :=
  let reports (directory : Place) (refusal : String) (names : List String) : List (Place × Node) :=
    names.map fun name => (directory ++ [name], .fixed (wordsOf name) (some refusal))
  reports ["proc"] "Input/output error (os error 5)" ["version", "cpuinfo", "meminfo"]
    ++ reports ["proc"] "Invalid argument (os error 22)" ["mounts"]
    ++ reports ["proc", "self"] "Invalid argument (os error 22)"
      ["status", "stat", "maps", "cmdline", "environ"]

def directoryNodes : List (Place × Node) :=
  [(["proc"], .directory true), (["proc", "self"], .directory true),
   (["proc", "self", "fd"], .directory true), (["sys"], .directory true),
   (["proc", "self", "cwd"], .link "/tmp/work"), (workingPlace, .directory false),
   (["etc"], .directory false), (["home"], .directory false), (["root"], .directory false),
   (["usr"], .directory false), (["var", "tmp"], .directory false)]

/-- A system with files, by their paths, in the working directory. -/
def Tree.ofFiles (files : List (String × ByteArray)) : Tree :=
  { nodes :=
      files.map (fun (path, content) => (workingPlace ++ names path, .file content))
        ++ channelNodes ++ deviceNodes ++ textNodes ++ reportNodes ++ directoryNodes
    working := workingPlace }

end CallGraph.Files
