import Pacman.Lib.Machine
import Pacman.Lib.Walker
import Pacman.Lib.Tour
import Pacman.Lib.Lattice
import Pacman.Lib.Taxicab
import Pacman.Lib.Bits
import Pacman.Lib.Counter
import Pacman.Lib.Trace
import Pacman.Lib.Chase
import Pacman.Lib.Memory
import Pacman.Walls
import Pacman.PacMotion
import Pacman.GhostMotion
import Pacman.Dots
import Pacman.Control
import Pacman.Lab8
import Pacman.FrameClocks
import Pacman.Board
import Pacman.VgaController
import Pacman.SpriteData
import Pacman.WallData
import Pacman.ColorMapper
import Pacman.HpiIoIntf
import Pacman.IoHandler
import Pacman.Usb
import Pacman.UsbDriver
import Pacman.UsbTransfers
import Pacman.UsbMain
import Pacman.Console
import Pacman.Theorems.Walls
import Pacman.Theorems.Drawing
import Pacman.Theorems.PacWalker
import Pacman.Theorems.PacMaze
import Pacman.Theorems.GhostWalker
import Pacman.Theorems.Band
import Pacman.Theorems.Contact
import Pacman.Theorems.Junction
import Pacman.Theorems.System
import Pacman.Theorems.Abreast
import Pacman.Theorems.DotGrid
import Pacman.Theorems.PreLevel
import Pacman.Theorems.PenExit
import Pacman.Theorems.Completion
import Pacman.Theorems.Overlap
import Pacman.Theorems.FrameClocks
import Pacman.Theorems.Chase
import Pacman.Theorems.Winning
import Pacman.Theorems.Board
import Pacman.Theorems.Raster
import Pacman.Theorems.Beam
import Pacman.Theorems.FirstSecond
import Pacman.Theorems.Picture
import Pacman.Theorems.WallPicture
import Pacman.Theorems.Screen
import Pacman.Theorems.HpiBus
import Pacman.Theorems.UsbWait
import Pacman.Theorems.UsbTransfers
import Pacman.Theorems.UsbMain
import Pacman.Theorems.UsbProgress
import Pacman.Theorems.UsbPins
import Pacman.Theorems.Console
import Pacman.Theorems.RandomWords
import Pacman.Theorems.LevelStart
import Pacman.Theorems.Steering
